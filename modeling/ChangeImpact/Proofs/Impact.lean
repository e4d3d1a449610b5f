import ChangeImpact.Impact
import ChangeImpact.Proofs.ImportDistance
import ChangeImpact.Proofs.ReverseMap

/-!
# Impact graphs by distance

A round of the search appends the unseen dependents of its frontier, and these become the next
frontier. After `k` rounds the frontier therefore holds the files at distance `k` from the changed
ones, the files expanded so far are those nearer than `k`, and the edges are the imports of expanded
files. The two main statements read the impact graph off this invariant.
-/

namespace ChangeImpact.ImpactGraph

variable {map : ReverseMap} {start expanded : List String} {k : ℕ}

/-- The edges into a file, one for each of its dependents. -/
def edgesInto (map : ReverseMap) (file : String) : List ImpactEdge :=
  (map.dependents file).map fun dependent => ⟨dependent, file⟩

/-- The sources of the edges into a file are its dependents. -/
theorem map_source_edgesInto (map : ReverseMap) (file : String) :
    (edgesInto map file).map (·.source) = map.dependents file := by
  rw [edgesInto, List.map_map]
  exact List.map_id _

namespace Search

variable {s : Search}

/-- Following an import from a visited file only records its edge. -/
theorem follow_of_mem {dependent : String} (hseen : dependent ∈ s.start ++ s.reached)
    (target : String) :
    s.follow target dependent = { s with edges := s.edges ++ [⟨dependent, target⟩] } := by
  have hvisited : s.hasVisited dependent = true := by simpa [hasVisited] using hseen
  exact if_pos hvisited

/-- Following an import from another file reaches that file. -/
theorem follow_of_not_mem {dependent : String} (hnew : dependent ∉ s.start ++ s.reached)
    (target : String) :
    s.follow target dependent =
      { s with
        reached := s.reached ++ [dependent]
        frontier := s.frontier ++ [dependent]
        edges := s.edges ++ [⟨dependent, target⟩] } := by
  have hvisited : ¬ s.hasVisited dependent = true := by simpa [hasVisited] using hnew
  exact if_neg hvisited

/-- Following edges one after the other records them all and reaches each unseen source once. -/
theorem foldl_follow (edges : List ImpactEdge) (s : Search) :
    edges.foldl (fun s edge => s.follow edge.target edge.source) s =
      ⟨s.start, s.reached ++ unseen (s.start ++ s.reached) (edges.map (·.source)),
        s.frontier ++ unseen (s.start ++ s.reached) (edges.map (·.source)), s.edges ++ edges⟩ := by
  induction edges generalizing s with
  | nil => simp
  | cons edge rest ih =>
    rw [List.foldl_cons, ih, List.map_cons]
    by_cases hseen : edge.source ∈ s.start ++ s.reached
    · rw [follow_of_mem hseen, unseen_cons_of_mem hseen]
      simp
    · rw [follow_of_not_mem hseen, unseen_cons_of_not_mem hseen]
      simp

/-- A round records the edges into the frontier and goes on to the unseen dependents. -/
theorem round_eq (map : ReverseMap) (s : Search) :
    s.round map =
      ⟨s.start, s.reached ++ unseen (s.start ++ s.reached) (s.frontier.flatMap map.dependents),
        unseen (s.start ++ s.reached) (s.frontier.flatMap map.dependents),
        s.edges ++ s.frontier.flatMap (edgesInto map)⟩ := by
  have hround : s.round map =
      (s.frontier.flatMap (edgesInto map)).foldl
        (fun s edge => s.follow edge.target edge.source) { s with frontier := [] } := by
    simp only [round, edgesInto, List.foldl_flatMap, List.foldl_map]
    rfl
  rw [hround, foldl_follow]
  simp only [List.map_flatMap, map_source_edgesInto, List.nil_append]

/-- A round without a frontier changes nothing. -/
theorem round_of_frontier_eq_nil (hfrontier : s.frontier = []) : s.round map = s := by
  cases s
  subst hfrontier
  simp [round_eq]

/-- Rounds without a frontier change nothing. -/
theorem rounds_of_frontier_eq_nil (hfrontier : s.frontier = []) (depth : ℕ) :
    Search.rounds map depth s = s := by
  cases depth with
  | zero => rfl
  | succ depth => exact if_pos (by simp [hfrontier])

/-- Stopping at an empty frontier is no different from going on. -/
theorem rounds_succ (map : ReverseMap) (depth : ℕ) (s : Search) :
    Search.rounds map (depth + 1) s = Search.rounds map depth (s.round map) := by
  by_cases hfrontier : s.frontier = []
  · rw [round_of_frontier_eq_nil hfrontier]
    simp only [rounds_of_frontier_eq_nil hfrontier]
  · exact if_neg (by simpa using hfrontier)

/-- A search is settled up to `k` if the files nearer than `k` are expanded and those at distance
`k` are its frontier. The reached files stand in the order of their distance, and none of them is
one of the first. -/
structure SettledTo (map : ReverseMap) (start expanded : List String) (k : ℕ) (s : Search) :
    Prop where
  start_eq : s.start = start
  /-- The visited files are the expanded ones, followed by the frontier. -/
  visited_eq : start ++ s.reached = expanded ++ s.frontier
  mem_expanded_iff : ∀ file, file ∈ expanded ↔ map.importDistance start file < k
  mem_frontier_iff : ∀ file, file ∈ s.frontier ↔ map.importDistance start file = k
  nodup_reached : s.reached.Nodup
  disjoint : start.Disjoint s.reached
  ordered : s.reached.Pairwise fun a b => map.importDistance start a ≤ map.importDistance start b
  edges_eq : s.edges = expanded.flatMap (edgesInto map)

namespace SettledTo

/-- The visited files are those within distance `k`. -/
theorem mem_visited_iff (hs : s.SettledTo map start expanded k) (file : String) :
    file ∈ start ++ s.reached ↔ map.importDistance start file ≤ k := by
  rw [hs.visited_eq, List.mem_append, hs.mem_expanded_iff, hs.mem_frontier_iff, le_iff_lt_or_eq]

/-- The unseen dependents of the frontier are the files one step further away. -/
theorem mem_unseen_iff (hs : s.SettledTo map start expanded k) (file : String) :
    file ∈ unseen (start ++ s.reached) (s.frontier.flatMap map.dependents) ↔
      map.importDistance start file = (k + 1 : ℕ) := by
  rw [ReverseMap.importDistance_eq_succ_iff, mem_unseen, hs.mem_visited_iff, and_comm]
  simp only [List.mem_flatMap, hs.mem_frontier_iff, ReverseMap.mem_dependents]
  refine and_congr_right fun _ => exists_congr fun next => and_comm

/-- Before the first round nothing is expanded and the first files are the frontier. -/
theorem begin (map : ReverseMap) (start : List String) :
    (Search.begin start).SettledTo map start [] 0 where
  start_eq := rfl
  visited_eq := by simp [Search.begin]
  mem_expanded_iff file := by simp
  mem_frontier_iff file := by
    rw [Nat.cast_zero, ReverseMap.importDistance_eq_zero_iff]
    rfl
  nodup_reached := List.nodup_nil
  disjoint := List.disjoint_nil_right start
  ordered := List.Pairwise.nil
  edges_eq := rfl

/-- A round expands the frontier and settles the search one step further. -/
theorem round (hs : s.SettledTo map start expanded k) :
    (s.round map).SettledTo map start (expanded ++ s.frontier) (k + 1) := by
  have hnew := hs.mem_unseen_iff
  have hlt (file : String) : map.importDistance start file < (k + 1 : ℕ) ↔
      map.importDistance start file ≤ k := by
    rw [Nat.cast_add_one, ENat.lt_natCast_add_one_iff]
  have hunseen {file : String}
      (hfile : file ∈ unseen (start ++ s.reached) (s.frontier.flatMap map.dependents)) :
      file ∉ start ∧ file ∉ s.reached := by
    simpa using (mem_unseen.mp hfile).2
  rw [round_eq, hs.start_eq]
  exact
    { start_eq := rfl
      visited_eq := by rw [← List.append_assoc, hs.visited_eq]
      mem_expanded_iff := by
        intro file
        rw [hlt, ← hs.visited_eq, hs.mem_visited_iff]
      mem_frontier_iff := hnew
      nodup_reached := hs.nodup_reached.append (nodup_unseen _ _)
        fun _ hreached hfile => (hunseen hfile).2 hreached
      disjoint := List.disjoint_append_right.mpr
        ⟨hs.disjoint, fun _ hstart hfile => (hunseen hfile).1 hstart⟩
      ordered := by
        refine List.pairwise_append.mpr ⟨hs.ordered, ?_, ?_⟩
        · refine List.pairwise_of_forall_mem_list fun a ha b hb => ?_
          rw [(hnew a).mp ha, (hnew b).mp hb]
        · intro a ha b hb
          have hnear := (hs.mem_visited_iff a).mp (List.mem_append_right _ ha)
          rw [(hnew b).mp hb]
          exact hnear.trans (Nat.cast_le.mpr (Nat.le_succ k))
      edges_eq := by rw [List.flatMap_append, ← hs.edges_eq] }

/-- A number of rounds settles the search that many steps further. -/
theorem rounds (hs : s.SettledTo map start expanded k) (depth : ℕ) :
    ∃ expanded', (Search.rounds map depth s).SettledTo map start expanded' (k + depth) := by
  -- The first round is made here, so the search and its distance vary in the induction.
  induction depth generalizing s expanded k with
  | zero => exact ⟨expanded, hs⟩
  | succ depth ih =>
    obtain ⟨expanded', hsettled⟩ := ih hs.round
    exact ⟨expanded', by rwa [rounds_succ, Nat.add_comm depth 1, ← Nat.add_assoc]⟩

/-- The expanded files are the visited ones nearer than the depth of the search. -/
theorem filter_visited (hs : s.SettledTo map start expanded k) :
    ((start ++ s.reached).filter fun file => map.importDistance start file < k) = expanded := by
  rw [hs.visited_eq, List.filter_append]
  have hexpanded : (expanded.filter fun file => map.importDistance start file < k) = expanded := by
    refine List.filter_eq_self.mpr fun file hfile => ?_
    exact decide_eq_true ((hs.mem_expanded_iff file).mp hfile)
  have hfrontier : (s.frontier.filter fun file => map.importDistance start file < k) = [] := by
    refine List.filter_eq_nil_iff.mpr fun file hfile => ?_
    rw [(hs.mem_frontier_iff file).mp hfile]
    simp
  rw [hexpanded, hfrontier, List.append_nil]

end SettledTo

end Search

/-- Edges into distinct files are distinct, where no file has a dependent twice. -/
theorem nodup_flatMap_edgesInto (hmap : ∀ file, (map.dependents file).Nodup) {files : List String}
    (hfiles : files.Nodup) : (files.flatMap (edgesInto map)).Nodup := by
  refine List.nodup_flatMap.mpr ⟨fun file _ => ?_, hfiles.imp fun {a b} hab => ?_⟩
  · refine (hmap file).map fun first second heq => ?_
    exact congrArg ImpactEdge.source heq
  · intro edge hinto hinto'
    obtain ⟨first, _, rfl⟩ := List.mem_map.mp hinto
    obtain ⟨second, _, heq⟩ := List.mem_map.mp hinto'
    exact hab (congrArg ImpactEdge.target heq).symm

/-- A search for the impact of a change set is settled to its depth. -/
theorem settledTo_ofChanges (map : ReverseMap) (changed : List ChangedFile) (maxDepth : ℕ) :
    ∃ expanded, (Search.rounds map maxDepth (.begin (sourcePaths changed))).SettledTo map
      (sourcePaths changed) expanded maxDepth := by
  simpa using (Search.SettledTo.begin map (sourcePaths changed)).rounds maxDepth

/-- The affected files are those, apart from the changed ones, that a shortest chain of one to
`maxDepth` imports leads down to a changed source file, each once and the nearest first. -/
theorem indirectlyAffected_ofChanges (map : ReverseMap) (changed : List ChangedFile)
    (maxDepth : ℕ) :
    let graph := ofChanges map changed maxDepth
    let distance := map.importDistance graph.directlyChanged
    graph.directlyChanged = (changed.filter (·.category = .source)).map (·.path) ∧
      graph.directlyChanged.Disjoint graph.indirectlyAffected ∧
      graph.indirectlyAffected.Nodup ∧
      (∀ file, file ∈ graph.indirectlyAffected ↔
        file ∉ graph.directlyChanged ∧ 1 ≤ distance file ∧ distance file ≤ maxDepth) ∧
      graph.indirectlyAffected.Pairwise fun a b => distance a ≤ distance b := by
  obtain ⟨expanded, hsettled⟩ := settledTo_ofChanges map changed maxDepth
  refine ⟨rfl, hsettled.disjoint, hsettled.nodup_reached, fun file => ?_, hsettled.ordered⟩
  have hvisited := hsettled.mem_visited_iff file
  rw [Order.one_le_iff_ne_zero, Ne, ReverseMap.importDistance_eq_zero_iff]
  constructor
  · intro hreached
    have hstart : file ∉ sourcePaths changed := fun h => hsettled.disjoint h hreached
    exact ⟨hstart, hstart, hvisited.mp (List.mem_append_right _ hreached)⟩
  · rintro ⟨hstart, -, hnear⟩
    exact (List.mem_append.mp (hvisited.mpr hnear)).resolve_left hstart

/-- The edges are the imports of the files that are expanded: the changed and the affected ones
nearer than `maxDepth`. Each of these is expanded once and no edge is recorded twice. -/
theorem edges_ofChanges (files : List String) (links : List ImportLink)
    (changed : List ChangedFile) (maxDepth : ℕ) (hdistinct : (sourcePaths changed).Nodup) :
    let map := ReverseMap.ofLinks files links
    let graph := ofChanges map changed maxDepth
    let expanded := (graph.directlyChanged ++ graph.indirectlyAffected).filter fun file =>
      map.importDistance graph.directlyChanged file < maxDepth
    graph.edges = expanded.flatMap (fun file =>
        (map.dependents file).map fun dependent => ⟨dependent, file⟩) ∧
      expanded.Nodup ∧ graph.edges.Nodup := by
  intro map graph
  obtain ⟨expanded, hsettled⟩ := settledTo_ofChanges map changed maxDepth
  have hexpanded : ((graph.directlyChanged ++ graph.indirectlyAffected).filter fun file =>
      map.importDistance graph.directlyChanged file < maxDepth) = expanded :=
    hsettled.filter_visited
  have hedges : graph.edges = expanded.flatMap (edgesInto map) := hsettled.edges_eq
  have hnodup : expanded.Nodup := by
    rw [← hexpanded]
    exact (hdistinct.append hsettled.nodup_reached hsettled.disjoint).filter _
  simp only [hexpanded]
  refine ⟨hedges, hnodup, ?_⟩
  rw [hedges]
  exact nodup_flatMap_edgesInto (ReverseMap.nodup_dependents_ofLinks files links) hnodup

/-- Two files import a changed one, a third imports both, and the changed file imports the third:
the edge into the changed file from the cycle is kept. -/
theorem edges_ofChanges_diamond :
    let changed : List ChangedFile :=
      [{ path := "a", status := .modified, category := .source }]
    let links : List ImportLink := [⟨"b", "a"⟩, ⟨"c", "a"⟩, ⟨"d", "b"⟩, ⟨"d", "c"⟩, ⟨"a", "d"⟩]
    let graph := ofChanges (ReverseMap.ofLinks [] links) changed 3
    (sourcePaths changed).Nodup ∧ graph.edges.Nodup ∧
      graph.edges = [⟨"b", "a"⟩, ⟨"c", "a"⟩, ⟨"d", "b"⟩, ⟨"d", "c"⟩, ⟨"a", "d"⟩] :=
  ⟨by decide, (edges_ofChanges _ _ _ 3 (by decide)).2.2, by decide⟩

end ChangeImpact.ImpactGraph
