import ChangeImpact.Import.Scan
import ChangeImpact.Proofs.ReverseMap
import Mathlib.Data.String.Basic

/-!
# Scanned maps

The batches of a scan put together are the collected files, so a scan adds the imports of one file
after the other, whatever the size of a batch. As the files are collected in ascending order, the
importers of any path are found in ascending order as well.
-/

namespace ChangeImpact

/-- Consecutive parts of equal size cover the beginning of a list. -/
theorem flatten_parts {α : Type} (size count : ℕ) (items : List α) :
    ((List.range count).map fun k => (items.drop (k * size)).take size).flatten =
      items.take (count * size) := by
  induction count with
  | zero => simp
  | succ count ih =>
    rw [List.range_succ, List.map_append, List.flatten_append, ih, Nat.succ_mul, List.take_add]
    simp

/-- Cutting a list into batches loses nothing and keeps the order. -/
theorem flatten_batches {α : Type} {size : ℕ} (hsize : 1 ≤ size) (items : List α) :
    (batches size items).flatten = items := by
  rw [batches, flatten_parts]
  apply List.take_of_length_le
  -- The number of batches is the quotient rounded up, so they reach the end.
  have hround := Nat.lt_mul_div_succ (items.length + size - 1) hsize
  rw [Nat.mul_add, Nat.mul_comm] at hround
  omega

/-- Files are collected in ascending order. -/
theorem pairwise_collectFiles (directory : Directory) (patterns : List String)
    (config : ScanConfig) : (collectFiles directory patterns config).Pairwise (· ≤ ·) := by
  have htrans (a b c : String) (hab : decide (a ≤ b) = true) (hbc : decide (b ≤ c) = true) :
      decide (a ≤ c) = true :=
    decide_eq_true ((of_decide_eq_true hab).trans (of_decide_eq_true hbc))
  have htotal (a b : String) : (decide (a ≤ b) || decide (b ≤ a)) = true := by
    simpa using le_total a b
  exact (List.pairwise_mergeSort htrans htotal _).imp of_decide_eq_true

/-- The imports of a file that mean a known file; none if it is not readable as text. -/
def Directory.links (directory : Directory) (known : List String) (path : String) :
    List ImportLink :=
  match directory.text? path with
  | none => []
  | some text => Import.links known path text

/-- A file has an import of a path if it is readable and one of its relative specifiers resolves to
the path. -/
theorem Directory.mem_links {directory : Directory} {known : List String}
    {path importer imported : String} :
    ⟨importer, imported⟩ ∈ directory.links known path ↔
      importer = path ∧ ∃ text, directory.text? path = some text ∧
        ∃ specifier ∈ Import.specifiers text, Import.isRelative specifier = true ∧
          Import.resolve specifier path known = some imported := by
  cases htext : directory.text? path with
  | none => simp [links, htext]
  | some text =>
    simp only [links, htext, Import.links, List.mem_filterMap, List.mem_filter,
      Option.map_eq_some_iff, ImportLink.mk.injEq, Option.some.injEq]
    constructor
    · rintro ⟨specifier, ⟨hfound, hrelative⟩, target, htarget, rfl, rfl⟩
      exact ⟨rfl, text, rfl, specifier, hfound, hrelative, htarget⟩
    · rintro ⟨rfl, _, rfl, specifier, hfound, hrelative, htarget⟩
      exact ⟨specifier, ⟨hfound, hrelative⟩, imported, htarget, rfl, rfl⟩

namespace ReverseMap

variable {directory : Directory} {config : ScanConfig}

/-- Scanning a file adds its imports. -/
theorem addFile_eq (directory : Directory) (map : ReverseMap) (path : String) :
    addFile directory map path = (directory.links map.files path).foldl add map := by
  unfold addFile Directory.links
  cases directory.text? path <;> rfl

/-- Adding imports does not change which files are known. -/
@[simp] theorem files_foldl_add (map : ReverseMap) (links : List ImportLink) :
    (links.foldl add map).files = map.files := by
  rw [foldl_add]

/-- Scanning files one after the other adds the imports of all of them, in order. -/
theorem foldl_addFile (directory : Directory) (map : ReverseMap) (paths : List String) :
    paths.foldl (addFile directory) map =
      (paths.flatMap (directory.links map.files)).foldl add map := by
  induction paths generalizing map with
  | nil => rfl
  | cons path rest ih =>
    rw [List.foldl_cons, addFile_eq, ih, files_foldl_add, List.flatMap_cons, List.foldl_append]

/-- A scan is built from the imports of the collected files; the batches have no effect. -/
theorem ofDirectory_eq (hsize : 1 ≤ config.batchSize) :
    ofDirectory directory config =
      ofLinks (collectFiles directory modulePatterns config)
        ((collectFiles directory modulePatterns config).flatMap
          (directory.links (collectFiles directory modulePatterns config))) := by
  rw [ofDirectory, ← List.foldl_flatten, flatten_batches hsize, foldl_addFile]
  rfl

/-- The imports of files in ascending order have their importers in ascending order. -/
theorem pairwise_importer (directory : Directory) (known : List String) {paths : List String}
    (hpaths : paths.Pairwise (· ≤ ·)) :
    ((paths.flatMap (directory.links known)).map (·.importer)).Pairwise (· ≤ ·) := by
  rw [List.pairwise_map, List.pairwise_flatMap]
  have himporter {path : String} {link : ImportLink} (hlink : link ∈ directory.links known path) :
      link.importer = path := (Directory.mem_links.mp hlink).1
  refine ⟨fun path _ => ?_, hpaths.imp fun {a b} hab first hfirst second hsecond => ?_⟩
  · refine List.pairwise_of_forall_mem_list fun first hfirst second hsecond => ?_
    rw [himporter hfirst, himporter hsecond]
  · rwa [himporter hfirst, himporter hsecond]

/-- Dependents found in ascending order are listed in strictly ascending order. -/
theorem pairwise_dependents_ofLinks (files : List String) {links : List ImportLink}
    (hlinks : (links.map (·.importer)).Pairwise (· ≤ ·)) (path : String) :
    ((ofLinks files links).dependents path).Pairwise (· < ·) := by
  have hnodup := nodup_dependents_ofLinks files links path
  have hsublist : ((ofLinks files links).dependents path).Sublist (links.map (·.importer)) := by
    rw [ofLinks_eq]
    exact (List.filter_sublist.trans (eraseDups_sublist links)).map _
  exact (hlinks.sublist hsublist).imp₂ (fun _ _ hle hne => lt_of_le_of_ne hle hne) hnodup

/-- A scan lists as dependents of a path exactly the collected files that are readable and have a
relative import that resolves to the path, each once and in ascending order; the size of a batch
does not matter. -/
theorem dependents_ofDirectory (directory : Directory) (config : ScanConfig)
    (hsize : 1 ≤ config.batchSize) :
    let known := collectFiles directory modulePatterns config
    let map := ofDirectory directory config
    map.files = known ∧
      (∀ path, (map.dependents path).Pairwise (· < ·) ∧
        ∀ file, file ∈ map.dependents path ↔
          file ∈ known ∧ ∃ text, directory.text? file = some text ∧
            ∃ specifier ∈ Import.specifiers text, Import.isRelative specifier = true ∧
              Import.resolve specifier file known = some path) ∧
      ∀ size, 1 ≤ size → ofDirectory directory { config with batchSize := size } = map := by
  intro known map
  have hmap : map = ofLinks known (known.flatMap (directory.links known)) := ofDirectory_eq hsize
  refine ⟨?_, fun path => ⟨?_, fun file => ?_⟩, fun size hother => ?_⟩
  · rw [hmap, ofLinks_eq]
  · rw [hmap]
    exact pairwise_dependents_ofLinks known
      (pairwise_importer directory known (pairwise_collectFiles directory _ config)) path
  · rw [hmap, ofLinks_eq, mem_dependents, List.mem_eraseDups, List.mem_flatMap]
    constructor
    · rintro ⟨importer, hknown, hlink⟩
      obtain ⟨rfl, hreadable⟩ := Directory.mem_links.mp hlink
      exact ⟨hknown, hreadable⟩
    · rintro ⟨hknown, hreadable⟩
      exact ⟨file, hknown, Directory.mem_links.mpr ⟨rfl, hreadable⟩⟩
  · rw [hmap]
    exact ofDirectory_eq hother

/-- A file with a relative import of its neighbour is found, in batches of one file and of seven. -/
theorem dependents_ofDirectory_neighbour :
    let directory : Directory :=
      .file "a.ts" [] (.file "b.ts" (Text.Utf8.encode "import './a'".toList) .empty)
    let map := ofDirectory directory { batchSize := 1 }
    "b.ts" ∈ map.dependents "a.ts" ∧ 1 ≤ 7 ∧ ofDirectory directory { batchSize := 7 } = map := by
  intro directory map
  have hknown : collectFiles directory modulePatterns { batchSize := 1 } = ["a.ts", "b.ts"] := by
    rw [collectFiles, List.mergeSort_of_pairwise (by decide +kernel)]
    decide +kernel
  obtain ⟨-, hdependents, hbatches⟩ := dependents_ofDirectory directory { batchSize := 1 } le_rfl
  refine ⟨((hdependents "a.ts").2 "b.ts").mpr ?_, by decide, hbatches 7 (by decide)⟩
  rw [hknown]
  exact ⟨by decide, "import './a'", by decide +kernel, "./a", by decide +kernel, by decide,
    by decide +kernel⟩

end ReverseMap

end ChangeImpact
