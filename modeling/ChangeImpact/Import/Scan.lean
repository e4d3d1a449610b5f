import ChangeImpact.Config.Basic
import ChangeImpact.Files.Directory
import ChangeImpact.Import.Resolve
import ChangeImpact.Import.ReverseMap

/-!
# Scanning a repository

Files are collected by name, without what the configuration excludes, in ascending order. A scan
reads the collected modules a batch at a time and records the relative imports that mean a collected
file. A module that is not valid text is skipped.
-/

namespace ChangeImpact

/-- The paths below a directory of the files whose name matches one of the patterns and which the
configuration does not exclude, in ascending order. -/
def collectFiles (directory : Directory) (patterns : List String) (config : ScanConfig) :
    List String :=
  (directory.search (fun name => patterns.any fun p => Text.globMatches p name)
    (isExcluded config.excludePatterns) "").mergeSort fun a b => decide (a ≤ b)

/-- Patterns for the names of modules. -/
def modulePatterns : List String := Import.moduleExtensions.map ("*" ++ ·)

/-- Consecutive parts of a list, each of the given size but perhaps the last. -/
def batches {α : Type} (size : Nat) (items : List α) : List (List α) :=
  (List.range ((items.length + size - 1) / size)).map fun k => (items.drop (k * size)).take size

/-- The text of a file below a directory, if it is a file and valid text. -/
def Directory.text? (directory : Directory) (path : String) : Option String :=
  match directory.locate (Path.segments path) with
  | .ok (.file content) => (readText content).toOption
  | _ => none

/-- The imports of a file that mean a known file, in the order of the text. -/
def Import.links (known : List String) (path text : String) : List ImportLink :=
  ((Import.specifiers text).filter Import.isRelative).filterMap fun specifier =>
    (Import.resolve specifier path known).map fun imported => ⟨path, imported⟩

namespace ReverseMap

/-- The map with the imports of one file. -/
def addFile (directory : Directory) (map : ReverseMap) (path : String) : ReverseMap :=
  match directory.text? path with
  | none => map
  | some text => (Import.links map.files path text).foldl add map

/-- The map of the modules below a directory. -/
def ofDirectory (directory : Directory) (config : ScanConfig) : ReverseMap :=
  let paths := collectFiles directory modulePatterns config
  (batches config.batchSize paths).foldl (fun map batch => batch.foldl (addFile directory) map)
    (ofFiles paths)

end ReverseMap

end ChangeImpact
