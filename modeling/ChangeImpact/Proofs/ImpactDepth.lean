import ChangeImpact.Proofs.Impact
import Mathlib.Data.Finset.Card

/-!
# Impact graphs at several depths

A round only appends, so a search with fewer rounds gives the beginning of what one with more rounds
gives. A shortest chain of imports takes each smaller distance at a file of its own, and all its
files occur in imports. After as many rounds as there are such files, the frontier is therefore
imported by no file, and further rounds change nothing but the frontier.
-/

namespace ChangeImpact

namespace ReverseMap

variable {map : ReverseMap} {targets : List String} {file importer imported : String} {k : ℕ}

/-- The files that occur in the imports of a map, as importers or as imported files. -/
def linkedFiles (map : ReverseMap) : Finset String :=
  (map.links.flatMap fun link => [link.importer, link.imported]).toFinset

/-- Importers occur in imports. -/
theorem importer_mem_linkedFiles (hlink : ⟨importer, imported⟩ ∈ map.links) :
    importer ∈ map.linkedFiles :=
  List.mem_toFinset.mpr (List.mem_flatMap.mpr ⟨_, hlink, by simp⟩)

/-- Imported files occur in imports. -/
theorem imported_mem_linkedFiles (hlink : ⟨importer, imported⟩ ∈ map.links) :
    imported ∈ map.linkedFiles :=
  List.mem_toFinset.mpr (List.mem_flatMap.mpr ⟨_, hlink, by simp⟩)

/-- On the way from a file in an import down to the targets, each smaller distance is that of a file
in an import. -/
theorem exists_linked_importDistance_eq (hfile : file ∈ map.linkedFiles)
    (hdistance : map.importDistance targets file = k) :
    ∀ j ≤ k, ∃ nearer ∈ map.linkedFiles, map.importDistance targets nearer = j := by
  induction k generalizing file with
  | zero =>
    intro j hj
    exact ⟨file, hfile, by rw [hdistance, Nat.le_zero.mp hj]⟩
  | succ k ih =>
    obtain ⟨-, next, hlink, hnext⟩ := importDistance_eq_succ_iff.mp hdistance
    intro j hj
    obtain rfl | hlt := Nat.eq_or_lt_of_le hj
    · exact ⟨file, hfile, hdistance⟩
    · exact ih (imported_mem_linkedFiles hlink) hnext j (Nat.le_of_lt_succ hlt)

/-- A file in an import is nearer than there are such files, or infinitely far away. -/
theorem importDistance_lt_card (hfile : file ∈ map.linkedFiles)
    (hdistance : map.importDistance targets file = k) : k < map.linkedFiles.card := by
  have htaken : Finset.range (k + 1) ⊆
      map.linkedFiles.image fun nearer => (map.importDistance targets nearer).toNat := by
    intro j hj
    have hle : j ≤ k := Nat.le_of_lt_succ (Finset.mem_range.mp hj)
    obtain ⟨nearer, hmem, heq⟩ := exists_linked_importDistance_eq hfile hdistance j hle
    exact Finset.mem_image.mpr ⟨nearer, hmem, by rw [heq, ENat.toNat_natCast]⟩
  calc k < (Finset.range (k + 1)).card := by rw [Finset.card_range]; exact Nat.lt_succ_self k
    _ ≤ (map.linkedFiles.image _).card := Finset.card_le_card htaken
    _ ≤ map.linkedFiles.card := Finset.card_image_le

/-- No file imports one that is as far away as there are files in imports. -/
theorem dependents_eq_nil_of_card_le (hdistance : map.importDistance targets file = k)
    (hk : map.linkedFiles.card ≤ k) : map.dependents file = [] := by
  refine List.eq_nil_iff_forall_not_mem.mpr fun importer himporter => ?_
  have hfile := imported_mem_linkedFiles (mem_dependents.mp himporter)
  exact absurd (importDistance_lt_card hfile hdistance) (by omega)

/-- The files that import a target through a chain of imports are those with a distance that is
smaller than the number of files in imports, the targets aside. -/
theorem exists_chain_iff (hfile : file ∉ targets) (hk : map.linkedFiles.card ≤ k) :
    (∃ steps ≥ 1, ∃ target ∈ targets, map.ImportChain steps file target) ↔
      map.importDistance targets file ≤ k := by
  constructor
  · rintro ⟨steps, -, target, htarget, hchain⟩
    have hle : map.importDistance targets file ≤ steps :=
      importDistance_le_iff.mpr ⟨steps, le_rfl, target, htarget, hchain⟩
    obtain ⟨distance, hdistance, -⟩ := ENat.le_natCast_iff.mp hle
    rw [hdistance, Nat.cast_le]
    cases hchain with
    | here => exact absurd htarget hfile
    | step hlink =>
      have hlt := importDistance_lt_card (importer_mem_linkedFiles hlink) hdistance
      omega
  · intro hle
    obtain ⟨steps, -, target, htarget, hchain⟩ := importDistance_le_iff.mp hle
    cases hchain with
    | here => exact absurd htarget hfile
    | step hlink hchain => exact ⟨_, Nat.le_add_left 1 _, target, htarget, .step hlink hchain⟩

end ReverseMap

namespace ImpactGraph

variable {map : ReverseMap} {start expanded : List String} {k : ℕ}

namespace Search

variable {s : Search}

/-- Rounds are made one after the other. -/
theorem rounds_add (map : ReverseMap) (first second : ℕ) (s : Search) :
    Search.rounds map (first + second) s =
      Search.rounds map second (Search.rounds map first s) := by
  induction first generalizing s with
  | zero =>
    rw [Nat.zero_add]
    rfl
  | succ first ih =>
    rw [Nat.succ_add, rounds_succ, ih, ← rounds_succ]

/-- Rounds only append to the reached files and to the edges. -/
theorem prefix_rounds (map : ReverseMap) (depth : ℕ) (s : Search) :
    s.reached <+: (Search.rounds map depth s).reached ∧
      s.edges <+: (Search.rounds map depth s).edges := by
  induction depth generalizing s with
  | zero => exact ⟨List.prefix_rfl, List.prefix_rfl⟩
  | succ depth ih =>
    obtain ⟨hreached, hedges⟩ := ih (s.round map)
    rw [rounds_succ]
    rw [round_eq] at hreached hedges ⊢
    exact ⟨(List.prefix_append _ _).trans hreached, (List.prefix_append _ _).trans hedges⟩

/-- Where no file imports one of the frontier, further rounds change nothing but the frontier. -/
theorem rounds_of_no_dependents (hfrontier : ∀ file ∈ s.frontier, map.dependents file = [])
    (depth : ℕ) :
    (Search.rounds map depth s).start = s.start ∧ (Search.rounds map depth s).reached = s.reached ∧
      (Search.rounds map depth s).edges = s.edges := by
  cases depth with
  | zero => exact ⟨rfl, rfl, rfl⟩
  | succ depth =>
    have hdependents : s.frontier.flatMap map.dependents = [] :=
      List.flatMap_eq_nil_iff.mpr hfrontier
    have hedges : s.frontier.flatMap (edgesInto map) = [] :=
      List.flatMap_eq_nil_iff.mpr fun file hfile => by rw [edgesInto, hfrontier file hfile]; rfl
    have hround : s.round map = { s with frontier := [] } := by
      rw [round_eq, hdependents, hedges, unseen_nil, List.append_nil, List.append_nil]
    rw [rounds_succ, hround, rounds_of_frontier_eq_nil rfl]
    exact ⟨rfl, rfl, rfl⟩

/-- The reached files are those within distance `k` that are not among the first. -/
theorem SettledTo.mem_reached_iff (hs : s.SettledTo map start expanded k) (file : String) :
    file ∈ s.reached ↔ file ∉ start ∧ map.importDistance start file ≤ k := by
  rw [← hs.mem_visited_iff file, List.mem_append]
  constructor
  · intro hreached
    exact ⟨fun hstart => hs.disjoint hstart hreached, .inr hreached⟩
  · rintro ⟨hstart, hvisited⟩
    exact hvisited.resolve_left hstart

/-- No file imports the frontier after as many rounds as there are files in imports. -/
theorem SettledTo.dependents_frontier (hs : s.SettledTo map start expanded k)
    (hk : map.linkedFiles.card ≤ k) : ∀ file ∈ s.frontier, map.dependents file = [] :=
  fun file hfile => ReverseMap.dependents_eq_nil_of_card_le ((hs.mem_frontier_iff file).mp hfile) hk

end Search

/-- A smaller depth gives the beginning of the affected files and of the edges. From the number of
files in imports on, the depth makes no difference: the affected files are all those that import a
changed source file through any number of steps. -/
theorem ofChanges_at_depths (map : ReverseMap) (changed : List ChangedFile) {near far deep : ℕ}
    (hle : near ≤ far) (hdeep : map.linkedFiles.card ≤ deep) :
    let graph := ofChanges map changed
    (graph near).indirectlyAffected <+: (graph far).indirectlyAffected ∧
      (graph near).edges <+: (graph far).edges ∧
      graph deep = graph map.linkedFiles.card ∧
      ∀ file, file ∈ (graph deep).indirectlyAffected ↔ file ∉ sourcePaths changed ∧
        ∃ steps ≥ 1, ∃ target ∈ sourcePaths changed, map.ImportChain steps file target := by
  intro graph
  obtain ⟨more, rfl⟩ := Nat.exists_eq_add_of_le hle
  obtain ⟨hreached, hedges⟩ := Search.prefix_rounds map more
    (Search.rounds map near (.begin (sourcePaths changed)))
  rw [← Search.rounds_add] at hreached hedges
  refine ⟨hreached, hedges, ?_, fun file => ?_⟩
  · obtain ⟨rest, rfl⟩ := Nat.exists_eq_add_of_le hdeep
    obtain ⟨expanded, hsettled⟩ := settledTo_ofChanges map changed map.linkedFiles.card
    obtain ⟨-, hreached, hedges⟩ := Search.rounds_of_no_dependents
      (hsettled.dependents_frontier le_rfl) rest
    simp only [graph, ofChanges, Search.rounds_add, hreached, hedges]
  · obtain ⟨expanded, hsettled⟩ := settledTo_ofChanges map changed deep
    refine (hsettled.mem_reached_iff file).trans (and_congr_right fun hfile => ?_)
    exact (ReverseMap.exists_chain_iff hfile hdeep).symm

/-- A cycle of three files that a fourth imports: one round stops short of it, and from four rounds
on the graph is complete. -/
theorem ofChanges_at_depths_cycle :
    let changed : List ChangedFile :=
      [{ path := "a", status := .modified, category := .source }]
    let map := ReverseMap.ofLinks [] [⟨"b", "a"⟩, ⟨"c", "b"⟩, ⟨"a", "c"⟩, ⟨"d", "c"⟩]
    map.linkedFiles.card = 4 ∧
      (ofChanges map changed 1).indirectlyAffected <+:
        (ofChanges map changed 2).indirectlyAffected ∧
      (ofChanges map changed 1).indirectlyAffected = ["b"] ∧
      (ofChanges map changed 9).indirectlyAffected = ["b", "c", "d"] ∧
      ofChanges map changed 9 = ofChanges map changed 4 := by
  intro changed map
  have hcard : map.linkedFiles.card = 4 := by decide
  obtain ⟨hgrows, -, hsame, -⟩ := @ofChanges_at_depths map changed 1 2 9 (by decide) (by omega)
  rw [hcard] at hsame
  exact ⟨hcard, hgrows, by decide, by decide, hsame⟩

end ImpactGraph

end ChangeImpact
