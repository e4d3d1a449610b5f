import ChangeImpact.Import.ReverseMap
import ChangeImpact.Proofs.Distinct

/-!
# Maps built from imports

A reverse dependency map arises from the map that knows only files by adding imports. It then holds
the distinct imports in the order of their first addition, so the dependents of a file are listed
without repeats.
-/

namespace ChangeImpact.ReverseMap

/-- The map of some files to which imports are added one after the other. -/
def ofLinks (files : List String) (links : List ImportLink) : ReverseMap :=
  links.foldl add (ofFiles files)

/-- Adding imports appends those that the map does not hold yet. -/
theorem foldl_add (map : ReverseMap) (links : List ImportLink) :
    links.foldl add map = { map with links := map.links ++ unseen map.links links } := by
  induction links generalizing map with
  | nil => simp
  | cons link rest ih =>
    rw [List.foldl_cons, ih]
    by_cases hheld : link ∈ map.links
    · have hadd : map.add link = map := if_pos (by simpa using hheld)
      rw [hadd, unseen_cons_of_mem hheld]
    · have hadd : map.add link = { map with links := map.links ++ [link] } :=
        if_neg (by simpa using hheld)
      rw [hadd, unseen_cons_of_not_mem hheld]
      simp

/-- A map built from imports holds each of them once. -/
theorem ofLinks_eq (files : List String) (links : List ImportLink) :
    ofLinks files links = ⟨files, links.eraseDups⟩ := by
  rw [ofLinks, foldl_add, ofFiles, unseen_of_nothing, List.nil_append]

/-- The dependents of a file are the importers in the imports of it. -/
@[simp] theorem mem_dependents {map : ReverseMap} {importer path : String} :
    importer ∈ map.dependents path ↔ ⟨importer, path⟩ ∈ map.links := by
  simp only [dependents, List.mem_map, List.mem_filter, beq_iff_eq]
  constructor
  · rintro ⟨⟨_, _⟩, ⟨hlink, rfl⟩, rfl⟩
    exact hlink
  · intro hlink
    exact ⟨⟨importer, path⟩, ⟨hlink, rfl⟩, rfl⟩

/-- Where no import is held twice, no dependent is listed twice. -/
theorem nodup_dependents {map : ReverseMap} (hlinks : map.links.Nodup) (path : String) :
    (map.dependents path).Nodup := by
  refine List.Nodup.map_on ?_ (hlinks.filter _)
  intro first hfirst second hsecond himporter
  have hfirst := beq_iff_eq.mp (List.mem_filter.mp hfirst).2
  have hsecond := beq_iff_eq.mp (List.mem_filter.mp hsecond).2
  cases first
  cases second
  simp_all

/-- A map built from imports lists no dependent twice. -/
theorem nodup_dependents_ofLinks (files : List String) (links : List ImportLink) (path : String) :
    ((ofLinks files links).dependents path).Nodup := by
  rw [ofLinks_eq]
  exact nodup_dependents (nodup_eraseDups links) path

end ChangeImpact.ReverseMap
