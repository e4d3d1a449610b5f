import ChangeImpact.Proofs.ImportScan
import ChangeImpact.Proofs.PathWalk

/-!
# Collected files

In a file tree the entries of a folder have different names, and every name is a segment of a path.
The path of an entry then tells the way that leads to it, so that no file is collected twice.
-/

namespace ChangeImpact

namespace Path

variable {place other : List String} {name : String}

/-- Places below places are places. -/
theorem IsPlace.append (hplace : IsPlace place) (hother : IsPlace other) :
    IsPlace (place ++ other) where
  isNormal := List.forall_mem_append.mpr ⟨hplace.isNormal, hother.isNormal⟩
  slash_not_mem := List.forall_mem_append.mpr ⟨hplace.slash_not_mem, hother.slash_not_mem⟩

/-- Different places have different paths. -/
theorem IsPlace.ofSegments_inj (hplace : IsPlace place) (hother : IsPlace other)
    (hpath : ofSegments place = ofSegments other) : place = other := by
  by_cases hempty : place = []
  · have hroot := hplace.ofSegments_eq_empty_iff.mpr hempty
    rw [hpath] at hroot
    rw [hempty, hother.ofSegments_eq_empty_iff.mp hroot]
  · have hne : other ≠ [] := by
      rintro rfl
      exact hempty (hplace.ofSegments_eq_empty_iff.mp hpath)
    rw [← segments_ofSegments hempty hplace.slash_not_mem, hpath,
      segments_ofSegments hne hother.slash_not_mem]

end Path

namespace Directory

open Text
open ChangeImpact.Path (IsPlace ofSegments)

/-- The names of the entries of a directory. -/
def names : Directory → List String
  | empty => []
  | file name _ rest => name :: rest.names
  | folder name _ rest => name :: rest.names

/-- Directories of a file tree: their entries have different names that are segments of paths. -/
inductive IsTree : Directory → Prop
  | empty : IsTree empty
  | file {name : String} {content : Bytes} {rest : Directory} (hname : IsPlace [name])
      (hfresh : name ∉ rest.names) (hrest : IsTree rest) : IsTree (file name content rest)
  | folder {name : String} {inside rest : Directory} (hname : IsPlace [name])
      (hfresh : name ∉ rest.names) (hinside : IsTree inside) (hrest : IsTree rest) :
    IsTree (folder name inside rest)

variable {directory found : Directory} {wanted excluded : String → Bool} {place : List String}
  {name path : String}

/-- A folder in a file tree is one. -/
theorem IsTree.of_entry? (htree : directory.IsTree)
    (hentry : directory.entry? name = some (.folder found)) : found.IsTree := by
  induction htree with
  | empty => cases hentry
  | file hname hfresh hrest ih =>
    unfold entry? at hentry
    split_ifs at hentry
    · cases hentry
    · exact ih hentry
  | folder hname hfresh hinside hrest ih ih' =>
    unfold entry? at hentry
    split_ifs at hentry
    · cases hentry
      exact hinside
    · exact ih' hentry

/-- Walking through a file tree leads to folders that are file trees. -/
theorem IsTree.of_locateFrom {above : List Directory} (habove : ∀ up ∈ above, up.IsTree)
    (htree : directory.IsTree) (hfound : locateFrom above directory place = .ok (.folder found)) :
    found.IsTree := by
  induction place generalizing above directory with
  | nil =>
    cases hfound
    exact htree
  | cons step rest ih =>
    unfold locateFrom at hfound
    split at hfound
    case isTrue =>
      cases above with
      | nil => exact ih (List.forall_mem_nil _) htree hfound
      | cons up more =>
        rw [List.forall_mem_cons] at habove
        exact ih habove.2 habove.1 hfound
    case isFalse =>
      split at hfound
      case isTrue => cases hfound
      case isFalse =>
        split at hfound
        case h_1 => cases hfound
        case h_2 below hentry =>
          exact ih (List.forall_mem_cons.mpr ⟨htree, habove⟩) (htree.of_entry? hentry) hfound
        case h_3 => split at hfound <;> cases hfound

/-- What a root names in a file tree is a file tree. -/
theorem IsTree.of_root {tree : Directory} (htree : tree.IsTree) (root : Root) :
    (root.directory tree).IsTree := by
  rw [Root.directory]
  split
  · next found hfound => exact htree.of_locateFrom (List.forall_mem_nil _) hfound
  · exact .empty

/-- The path of an entry is that of its place. -/
theorem childPath_ofSegments (hplace : IsPlace place) (name : String) :
    childPath (ofSegments place) name = ofSegments (place ++ [name]) := by
  rw [childPath]
  by_cases hempty : place = []
  · subst hempty
    rfl
  · have hlead : ofSegments place ≠ "" := fun h => hempty (hplace.ofSegments_eq_empty_iff.mp h)
    rw [if_neg (by simpa using hlead), Path.ofSegments_append_singleton hempty]

/-- The paths that a search finds are those of places below entries of the directory. -/
theorem IsTree.exists_place_of_mem_search (htree : directory.IsTree) (hplace : IsPlace place)
    (hpath : path ∈ directory.search wanted excluded (ofSegments place)) :
    ∃ name ∈ directory.names, ∃ more,
      IsPlace (place ++ name :: more) ∧ path = ofSegments (place ++ name :: more) := by
  induction htree generalizing place with
  | empty => cases hpath
  | @file name content rest hname hfresh hrest ih =>
    have hhere : path = ofSegments (place ++ [name]) ∨
        path ∈ rest.search wanted excluded (ofSegments place) := by
      rw [search, childPath_ofSegments hplace] at hpath
      split_ifs at hpath
      · exact List.mem_cons.mp hpath
      · exact .inr hpath
    obtain rfl | hpath := hhere
    · exact ⟨name, List.mem_cons_self, [], hplace.append hname, rfl⟩
    · obtain ⟨other, hother, more, hfound⟩ := ih hplace hpath
      exact ⟨other, List.mem_cons_of_mem _ hother, more, hfound⟩
  | @folder name inside rest hname hfresh hinside hrest ih ih' =>
    have hhere : path ∈ inside.search wanted excluded (ofSegments (place ++ [name])) ∨
        path ∈ rest.search wanted excluded (ofSegments place) := by
      rw [search, childPath_ofSegments hplace] at hpath
      split_ifs at hpath
      · exact .inr hpath
      · exact List.mem_append.mp hpath
    obtain hpath | hpath := hhere
    · obtain ⟨other, -, more, hfound⟩ := ih (hplace.append hname) hpath
      rw [List.append_assoc] at hfound
      exact ⟨name, List.mem_cons_self, other :: more, hfound⟩
    · obtain ⟨other, hother, more, hfound⟩ := ih' hplace hpath
      exact ⟨other, List.mem_cons_of_mem _ hother, more, hfound⟩

/-- No path below an entry is found among entries with other names. -/
theorem IsTree.not_mem_search (htree : directory.IsTree) (hplace : IsPlace place)
    {more : List String} (hname : IsPlace (place ++ name :: more))
    (hfresh : name ∉ directory.names) :
    ofSegments (place ++ name :: more) ∉ directory.search wanted excluded (ofSegments place) := by
  intro hpath
  obtain ⟨other, hother, rest, hrest, heq⟩ := htree.exists_place_of_mem_search hplace hpath
  have hsame := List.append_cancel_left (hname.ofSegments_inj hrest heq)
  rw [List.cons.injEq] at hsame
  exact hfresh (hsame.1 ▸ hother)

/-- A search finds no path twice. -/
theorem IsTree.nodup_search (htree : directory.IsTree) (hplace : IsPlace place) :
    (directory.search wanted excluded (ofSegments place)).Nodup := by
  induction htree generalizing place with
  | empty => exact List.nodup_nil
  | @file name content rest hname hfresh hrest ih =>
    have hnew : ofSegments (place ++ [name]) ∉ rest.search wanted excluded (ofSegments place) :=
      hrest.not_mem_search hplace (hplace.append hname) hfresh
    rw [search, childPath_ofSegments hplace]
    split_ifs
    · exact List.nodup_cons.mpr ⟨hnew, ih hplace⟩
    · exact ih hplace
  | @folder name inside rest hname hfresh hinside hrest ih ih' =>
    have hbelow := hplace.append hname
    rw [search, childPath_ofSegments hplace]
    split_ifs
    · exact ih' hplace
    · refine (ih hbelow).append (ih' hplace) fun path hpath hpath' => ?_
      obtain ⟨other, -, more, hfound, rfl⟩ := hinside.exists_place_of_mem_search hbelow hpath
      rw [List.append_assoc] at hfound hpath'
      exact hrest.not_mem_search hplace hfound hfresh hpath'

/-- No file of a file tree is collected twice. -/
theorem IsTree.nodup_collectFiles (htree : directory.IsTree) (patterns : List String)
    (config : ScanConfig) : (collectFiles directory patterns config).Nodup :=
  (List.mergeSort_perm _ _).nodup_iff.mpr (htree.nodup_search Path.isPlace_nil)

end Directory

end ChangeImpact
