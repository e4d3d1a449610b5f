import ChangeImpact.Proofs.ReverseMap
import Mathlib.Data.Finset.Card
import Mathlib.Data.List.Sort

/-!
# What a map tells of the imports that were added

One more import puts its importer behind the dependents of the imported file, unless it is listed
there. After any number of additions the dependents of a file are therefore its importers in the
order in which their imports were first added, and all that a map tells agrees with these lists.
-/

namespace ChangeImpact

/-- A list holds the importers of a file, each once, in the order in which their imports were first
added. -/
structure ListsImporters (added : List ImportLink) (path : String) (importers : List String) :
    Prop where
  mem_iff : ∀ importer, importer ∈ importers ↔ ⟨importer, path⟩ ∈ added
  nodup : importers.Nodup
  ordered : importers.Pairwise fun a b => added.idxOf ⟨a, path⟩ < added.idxOf ⟨b, path⟩

namespace ListsImporters

variable {added : List ImportLink} {link : ImportLink} {path : String}
  {importers others : List String}

/-- Before the first import no file has importers. -/
theorem nil (path : String) : ListsImporters [] path [] where
  mem_iff importer := by simp
  nodup := List.nodup_nil
  ordered := List.Pairwise.nil

/-- There is one such list. -/
theorem unique (hfirst : ListsImporters added path importers)
    (hsecond : ListsImporters added path others) : importers = others := by
  have hperm : importers.Perm others :=
    (List.perm_ext_iff_of_nodup hfirst.nodup hsecond.nodup).mpr fun importer => by
      rw [hfirst.mem_iff, hsecond.mem_iff]
  refine hperm.eq_of_pairwise (fun a b _ _ hab hba => ?_) hfirst.ordered hsecond.ordered
  exact absurd hab hba.not_gt

/-- Further imports do not change the order of the importers so far. -/
theorem ordered_append (hlists : ListsImporters added path importers) (later : List ImportLink) :
    importers.Pairwise fun a b =>
      (added ++ later).idxOf ⟨a, path⟩ < (added ++ later).idxOf ⟨b, path⟩ := by
  refine hlists.ordered.imp_of_mem fun ha hb hab => ?_
  rwa [List.idxOf_append_of_mem ((hlists.mem_iff _).mp ha),
    List.idxOf_append_of_mem ((hlists.mem_iff _).mp hb)]

/-- An import of another file, or by an importer that is listed, leaves the list as it is. -/
theorem add_known (hlists : ListsImporters added path importers)
    (hknown : link.imported = path → link.importer ∈ importers) :
    ListsImporters (added ++ [link]) path importers where
  mem_iff importer := by
    rw [hlists.mem_iff, List.mem_append, List.mem_singleton]
    refine ⟨.inl, fun hadded => hadded.elim id ?_⟩
    rintro rfl
    exact (hlists.mem_iff importer).mp (hknown rfl)
  nodup := hlists.nodup
  ordered := hlists.ordered_append [link]

/-- The importer of a new import of the file comes last. -/
theorem add_new (hlists : ListsImporters added link.imported importers)
    (hnew : link.importer ∉ importers) :
    ListsImporters (added ++ [link]) link.imported (importers ++ [link.importer]) where
  mem_iff importer := by
    obtain ⟨newImporter, path⟩ := link
    simp [hlists.mem_iff]
  nodup := by
    rw [← List.concat_eq_append]
    exact hlists.nodup.concat hnew
  ordered := by
    have hnewLink : link ∉ added := fun hadded => hnew ((hlists.mem_iff _).mpr hadded)
    refine List.pairwise_append.mpr ⟨hlists.ordered_append [link], List.pairwise_singleton _ _,
      fun importer himporter last hlast => ?_⟩
    have hadded := (hlists.mem_iff importer).mp himporter
    rw [List.mem_singleton.mp hlast, List.idxOf_append_of_mem hadded,
      List.idxOf_append_of_notMem hnewLink]
    exact Nat.lt_add_right _ (List.idxOf_lt_length_of_mem hadded)

end ListsImporters

namespace ReverseMap

/-- An added import puts its importer behind the dependents of the imported file, unless it is one
of them. No other file's dependents change. -/
theorem dependents_add (map : ReverseMap) (link : ImportLink) (path : String) :
    (map.add link).dependents path =
      if link.imported = path ∧ link.importer ∉ map.dependents path then
        map.dependents path ++ [link.importer]
      else map.dependents path := by
  by_cases hheld : link ∈ map.links
  · have hadd : map.add link = map := if_pos (by simpa using hheld)
    rw [hadd, if_neg]
    rintro ⟨rfl, hnew⟩
    exact hnew (mem_dependents.mpr hheld)
  · have hadd : map.add link = { map with links := map.links ++ [link] } :=
      if_neg (by simpa using hheld)
    rw [hadd]
    by_cases hpath : link.imported = path
    · have hnew : link.importer ∉ map.dependents path := fun hlisted =>
        hheld (by simpa [← hpath] using hlisted)
      rw [if_pos ⟨hpath, hnew⟩]
      simp [dependents, hpath]
    · rw [if_neg fun hboth => hpath hboth.1]
      simp [dependents, hpath]

variable (files : List String) (added : List ImportLink)

/-- The dependents of a file are its importers in the order in which they were first added. -/
theorem listsImporters_dependents (path : String) :
    ListsImporters added path ((ofLinks files added).dependents path) := by
  -- the last import is the one that the step adds, so the induction is from the right
  induction added using List.reverseRecOn with
  | nil => exact .nil path
  | append_singleton added link ih =>
    have hstep : ofLinks files (added ++ [link]) = (ofLinks files added).add link := by
      rw [ofLinks, List.foldl_append]
      rfl
    rw [hstep, dependents_add]
    split_ifs with hnew
    · obtain ⟨rfl, hnew⟩ := hnew
      exact ih.add_new hnew
    · exact ih.add_known fun hpath => by_contra fun hmissing => hnew ⟨hpath, hmissing⟩

/-- The number of imported files counts each file once. -/
theorem size_ofLinks : (ofLinks files added).size = (added.map (·.imported)).toFinset.card := by
  have himported : (ofLinks files added).imported.toFinset = (added.map (·.imported)).toFinset := by
    ext path
    simp [imported, ofLinks_eq]
  rw [← himported, size, imported, List.toFinset_card_of_nodup (nodup_eraseDups _)]

/-- Of the imports that were added in any order and number, a map lists the importers of each file
once, in the order of first additions. It contains the files with importers, its size is their
number, and the consumers of some files are these lists. -/
theorem observations_ofLinks :
    let map := ofLinks files added
    (∀ path importers, map.dependents path = importers ↔ ListsImporters added path importers) ∧
      (∀ path, (map.contains path = true ↔ map.dependents path ≠ []) ∧
        (map.dependents path ≠ [] ↔ path ∈ added.map (·.imported))) ∧
      map.size = (added.map (·.imported)).toFinset.card ∧
      ∀ targets, ((map.consumers targets).map Prod.fst).Nodup ∧
        ∀ target importers, (target, importers) ∈ map.consumers targets ↔
          target ∈ targets ∧ importers = map.dependents target := by
  intro map
  have hlists := listsImporters_dependents files added
  refine ⟨fun path importers => ⟨?_, (hlists path).unique⟩, fun path => ⟨?_, ?_⟩,
    size_ofLinks files added, fun targets => ⟨?_, fun target importers => ?_⟩⟩
  · rintro rfl
    exact hlists path
  · simp [contains_eq]
  · rw [List.mem_map]
    constructor
    · intro hsome
      obtain ⟨importer, himporter⟩ := List.exists_mem_of_ne_nil _ hsome
      exact ⟨⟨importer, path⟩, ((hlists path).mem_iff importer).mp himporter, rfl⟩
    · rintro ⟨link, hadded, rfl⟩
      exact List.ne_nil_of_mem (((hlists _).mem_iff link.importer).mpr hadded)
  · have hkeys : (map.consumers targets).map Prod.fst = targets.eraseDups := by
      rw [consumers, List.map_map]
      exact List.map_id _
    rw [hkeys]
    exact nodup_eraseDups targets
  · simp only [consumers, List.mem_map, List.mem_eraseDups, Prod.mk.injEq]
    constructor
    · rintro ⟨_, htarget, rfl, rfl⟩
      exact ⟨htarget, rfl⟩
    · rintro ⟨htarget, rfl⟩
      exact ⟨target, htarget, rfl, rfl⟩

end ReverseMap

end ChangeImpact
