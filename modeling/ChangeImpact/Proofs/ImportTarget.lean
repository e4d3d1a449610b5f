import ChangeImpact.Import.Cache
import ChangeImpact.Proofs.PathWalk

/-!
# What a specifier means

A relative specifier is followed from the folder of the importing file, and the file meant is the
first known one of nine. A module that is named by hand is looked up as an import from the top
folder would find it, unless the name leads to the top folder itself: that place is written as a dot
when it is looked up, and the dot is then taken for a name.
-/

namespace ChangeImpact

open ChangeImpact.Path

namespace Import

variable {specifier importer : String} {place : List String}

/-- A relative specifier is no path from the root. -/
theorem isAbsolute_of_isRelative (hrelative : isRelative specifier = true) :
    isAbsolute specifier = false := by
  rw [isRelative] at hrelative
  rw [isAbsolute]
  split at hrelative
  · simp_all
  · simp_all
  · cases hrelative

/-- A specifier names the place that it leads to from the importing file's folder. -/
theorem target_eq_ofSegments (hfolders : ∀ folder ∈ folders importer, IsNormal folder)
    (hrelative : isAbsolute specifier = false) :
    target specifier importer = ofSegments (reach (folders importer) specifier) := by
  have hplace : IsPlace (folders importer) := ⟨hfolders, fun _ => slash_not_mem_of_mem_folders⟩
  rw [target, directory_eq_ofSegments hfolders, hplace.normalize_join hrelative,
    trimSlashesLeft_slash, (hplace.reach specifier).trimSlashesLeft_ofSegments]

/-- The files that a place may mean: a file of that name, one with an extension, or an index file
in a folder of that name. -/
theorem moduleCandidates_ofSegments (hplace : IsPlace place) :
    let path := ofSegments place
    moduleCandidates path =
      [path, path ++ ".ts", path ++ ".tsx", path ++ ".js", path ++ ".jsx",
        ofSegments (place ++ ["index.ts"]), ofSegments (place ++ ["index.tsx"]),
        ofSegments (place ++ ["index.js"]), ofSegments (place ++ ["index.jsx"])] := by
  intro path
  have hindex (index : String) :
      (if path.isEmpty then index else path ++ "/" ++ index) = ofSegments (place ++ [index]) := by
    simp only [String.isEmpty_iff, path, hplace.ofSegments_eq_empty_iff]
    split_ifs with hnone
    · rw [hnone]
      simp [ofSegments]
    · rw [ofSegments_append_singleton hnone]
  rw [moduleCandidates]
  simp only [hindex]
  rfl

/-- An import means the first known file of nine: the place to which its specifier leads, that place
with an extension, or an index file there. -/
theorem resolve_eq_find? (hfolders : ∀ folder ∈ folders importer, IsNormal folder)
    (hrelative : isRelative specifier = true) (known : List String) :
    let place := reach (folders importer) specifier
    let path := ofSegments place
    resolve specifier importer known =
      [path, path ++ ".ts", path ++ ".tsx", path ++ ".js", path ++ ".jsx",
        ofSegments (place ++ ["index.ts"]), ofSegments (place ++ ["index.tsx"]),
        ofSegments (place ++ ["index.js"]), ofSegments (place ++ ["index.jsx"])].find?
          known.contains := by
  intro place path
  have hfolder : IsPlace (folders importer) := ⟨hfolders, fun _ => slash_not_mem_of_mem_folders⟩
  rw [resolve, target_eq_ofSegments hfolders (isAbsolute_of_isRelative hrelative), matchModule,
    moduleCandidates_ofSegments (hfolder.reach specifier)]

/-- A specifier that climbs above the root and ends there means an index file of the top folder. -/
theorem resolve_eq_find?_topFolder :
    (∀ folder ∈ folders "src/ui/view.ts", IsNormal folder) ∧
      isRelative "../../.././lib/..//" = true ∧
      resolve "../../.././lib/..//" "src/ui/view.ts" ["src/index.ts", "index.jsx", "index.tsx"] =
        some "index.tsx" := by
  have hfolders : ∀ folder ∈ folders "src/ui/view.ts", IsNormal folder := by decide +kernel
  have hrelative : isRelative "../../.././lib/..//" = true := by decide
  exact ⟨hfolders, hrelative, (resolve_eq_find? hfolders hrelative _).trans (by decide +kernel)⟩

end Import

namespace ReverseMap

open Import

variable {path importer : String}

/-- An import from the top folder leads to the place to which its path leads from the root. -/
theorem target_dotSlash (hfolder : folders importer = []) (path : String) :
    target ("./" ++ path) importer = ofSegments (reach [] path) := by
  have hsegments : segments ("./" ++ path) = "." :: segments path := by
    have hdot : segments "." = ["."] := segments_eq_singleton (by decide)
    have hparts := segments_append_slash "." path
    rwa [hdot] at hparts
  have hrelative : isAbsolute ("./" ++ path) = false := by
    simp [isAbsolute, String.toList_append]
  have hreach : reach [] ("./" ++ path) = reach [] path := by
    rw [reach, hsegments, List.foldl_cons, reach]
    rfl
  rw [target_eq_ofSegments (by simp [hfolder]) hrelative, hfolder, hreach]

/-- What a module that is named by hand is looked up as. -/
theorem trimSlashesLeft_normalize (hrelative : isAbsolute path = false)
    (hbelow : StaysBelow (segments path)) :
    trimSlashesLeft (normalize path) =
      if reach [] path = [] then "." else ofSegments (reach [] path) := by
  rw [normalize_of_staysBelow hrelative hbelow]
  split_ifs
  · decide
  · exact (isPlace_nil.reach path).trimSlashesLeft_ofSegments

/-- The importers of a module are those of the file that it is looked up as. -/
theorem importersOf_eq (map : ReverseMap) (hrelative : isAbsolute (forwardSlashes path) = false)
    (hbelow : StaysBelow (segments (forwardSlashes path))) :
    map.importersOf path =
      (matchModule (if reach [] (forwardSlashes path) = [] then "."
        else ofSegments (reach [] (forwardSlashes path))) map.files).elim [] map.dependents := by
  rw [importersOf]
  simp only [trimSlashesLeft_normalize hrelative hbelow]
  split <;> simp [*]

/-- For a relative path that never climbs above the root, looking a module up by hand finds on every
map what an import of it from the top folder would find exactly if the path does not lead to the top
folder itself. There it finds the importers of a file that the dot names, and passes over the index
files. -/
theorem importersOf_eq_imported_iff (hrelative : isAbsolute (forwardSlashes path) = false)
    (hbelow : StaysBelow (segments (forwardSlashes path))) :
    let written := forwardSlashes path
    ((∀ (map : ReverseMap) (importer : String), folders importer = [] →
        map.importersOf path =
          (resolve ("./" ++ written) importer map.files).elim [] map.dependents) ↔
      reach [] written ≠ []) ∧
    (reach [] written = [] → ∀ map : ReverseMap,
      map.importersOf path =
        ([".", "..ts", "..tsx", "..js", "..jsx", "./index.ts", "./index.tsx", "./index.js",
          "./index.jsx"].find? map.files.contains).elim [] map.dependents) := by
  intro written
  have hroot (hreach : reach [] written = []) (map : ReverseMap) :
      map.importersOf path =
        ([".", "..ts", "..tsx", "..js", "..jsx", "./index.ts", "./index.tsx", "./index.js",
          "./index.jsx"].find? map.files.contains).elim [] map.dependents := by
    rw [map.importersOf_eq hrelative hbelow, if_pos hreach, matchModule]
    rfl
  refine ⟨⟨?_, ?_⟩, hroot⟩
  · intro hagree hreach
    have himport := hagree ⟨["index.ts"], [⟨"a.ts", "index.ts"⟩]⟩ "a.ts" (by decide)
    rw [hroot hreach, resolve, target_dotSlash (by decide), hreach] at himport
    exact absurd himport (by decide)
  · intro hreach map importer hfolder
    rw [map.importersOf_eq hrelative hbelow, if_neg hreach, resolve, target_dotSlash hfolder]

/-- A module with an index file is named with both separators and by a detour. -/
theorem importersOf_eq_imported_detour :
    let map : ReverseMap :=
      ⟨["app.ts", "src/lib/index.ts"], [⟨"app.ts", "src/lib/index.ts"⟩]⟩
    isAbsolute (forwardSlashes "src\\ui/..//.\\lib") = false ∧
      StaysBelow (segments (forwardSlashes "src\\ui/..//.\\lib")) ∧
      reach [] (forwardSlashes "src\\ui/..//.\\lib") ≠ [] ∧ folders "app.ts" = [] ∧
      map.importersOf "src\\ui/..//.\\lib" = ["app.ts"] := by
  intro map
  have hrelative : isAbsolute (forwardSlashes "src\\ui/..//.\\lib") = false := by decide
  have hbelow : StaysBelow (segments (forwardSlashes "src\\ui/..//.\\lib")) := by decide +kernel
  have hreach : reach [] (forwardSlashes "src\\ui/..//.\\lib") ≠ [] := by decide +kernel
  have hfolder : folders "app.ts" = [] := by decide
  have himported := (importersOf_eq_imported_iff hrelative hbelow).1.mpr hreach map "app.ts" hfolder
  exact ⟨hrelative, hbelow, hreach, hfolder, himported.trans (by decide +kernel)⟩

/-- Of a scanned tree the index file of the top folder has an importer, and an import of the folder
finds that file, but under the name of the folder no importer is found. -/
theorem importersOf_topFolder :
    let directory : Directory :=
      .file "a.ts" (Text.Utf8.encode "import './index'".toList) (.file "index.ts" [] .empty)
    let map := ofDirectory directory {}
    StaysBelow (segments (forwardSlashes ".")) ∧
      resolve ("./" ++ ".") "a.ts" map.files = some "index.ts" ∧
      map.dependents "index.ts" = ["a.ts"] ∧ map.importersOf "." = [] := by
  intro directory map
  have hknown : collectFiles directory modulePatterns {} = ["a.ts", "index.ts"] := by
    rw [collectFiles, List.mergeSort_of_pairwise (by decide +kernel)]
    decide +kernel
  have hmap : map = ⟨["a.ts", "index.ts"], [⟨"a.ts", "index.ts"⟩]⟩ := by
    simp only [map, ofDirectory, hknown]
    decide +kernel
  rw [hmap]
  decide +kernel

end ReverseMap

end ChangeImpact
