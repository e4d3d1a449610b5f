import ChangeImpact.Config.Basic
import ChangeImpact.Failure
import ChangeImpact.Json.Printer

/-!
# The configuration file

A project's configuration is a JSON file in a folder of its own below the root. Without the file the
defaults count; a file that is there has to be valid. Unknown fields are ignored.
-/

namespace ChangeImpact

open Text

namespace ScanConfig

/-- Reads scan settings. -/
def decode : Decoder ScanConfig := Decoder.record fun fields =>
  ((Decoder.field fields "exclude_patterns" "exclude_patterns" (Decoder.list Decoder.string)
    (some ({} : ScanConfig).excludePatterns)).map ScanConfig.mk).apply
  (Decoder.field fields "batch_size" "batch_size" (Decoder.intFrom 1)
    (some ({} : ScanConfig).batchSize))

/-- The settings as JSON. -/
def encode (config : ScanConfig) : Json :=
  .object [("exclude_patterns", Json.texts config.excludePatterns),
    ("batch_size", .int config.batchSize)]

end ScanConfig

namespace ProjectConfig

/-- Reads the section on impact. -/
def decodeImpact : Decoder Nat := Decoder.record fun fields =>
  Decoder.field fields "max_depth" "max_depth" (Decoder.intFrom 0)
    (some ({} : ProjectConfig).maxDepth)

/-- What the fields of an object configure. -/
def decodeFields (fields : List (String × Json)) : Validated ProjectConfig :=
  ((Decoder.field fields "scan" "scan" ScanConfig.decode (some {})).map ProjectConfig.mk).apply
    (Decoder.field fields "impact" "impact" decodeImpact (some ({} : ProjectConfig).maxDepth))

/-- Reads a configuration. -/
def decode : Decoder ProjectConfig := Decoder.record decodeFields

/-- The configuration as JSON. -/
def encode (config : ProjectConfig) : Json :=
  .object [("scan", config.scan.encode), ("impact", .object [("max_depth", .int config.maxDepth)])]

/-- The text of a configuration file, unless one of its numbers has too many digits to be
written. -/
def fileText? (config : ProjectConfig) : Option String :=
  Json.writeWithin (some maxIntegerDigits) .ascii config.encode

/-- The folder of the configuration file. -/
def folderName : String := ".primpact"

/-- The name of the configuration file. -/
def fileName : String := "config.json"

/-- The path of the configuration file of a root, for messages. -/
def filePath (root : Root) : String := root.pathOf [folderName, fileName]

/-- The word for the kind of a JSON value. -/
def kindWord : Json → String
  | .null => "NoneType"
  | .bool _ => "bool"
  | .int _ => "int"
  | .real _ => "float"
  | .string _ => "str"
  | .list _ => "list"
  | .object _ => "dict"

/-- The configuration that the content of a file holds. -/
def ofContent (content : Bytes) : Except ConfigFault ProjectConfig := do
  let text ← (readText content).mapError .notText
  let json ← (Json.read text.toList).mapError (.notJson · text)
  match json with
  | .object fields => (decodeFields fields).toExcept.mapError .invalid
  | other => .error (.notObject (kindWord other))

/-- The configuration of a root. -/
def load (root : Root) (tree : Directory) : Except Failure ProjectConfig :=
  match root.locate tree [folderName, fileName] with
  | .error .nameTooLong => .error (.file .nameTooLong)
  | .error _ => .ok {}
  | .ok (.folder _) => .error (.config (filePath root) (.unreadable .isDirectory))
  | .ok (.file content) => (ofContent content).mapError (.config (filePath root))

/-- The tree with the configuration file of a root written, folders on the way included. A file in
the place of a folder, or a folder in the place of the file, is in the way. Neither a name or path
that is too long nor a number of too many digits is written. -/
def save (root : Root) (tree : Directory) (config : ProjectConfig) : Except Failure Directory := do
  let place := root.place ++ [folderName]
  if maxPathBytes < byteLength (root.pathOf [folderName]) then throw (.file .nameTooLong)
  let folders ← ofFiles (tree.keepFolders place.reverse)
  let some text := config.fileText? | throw .badNumber
  match root.locate folders [folderName, fileName] with
  | .error .nameTooLong => throw (.file .nameTooLong)
  | .ok (.folder _) => throw (.file .isDirectory)
  | _ =>
    let content := Text.Utf8.encode text.toList
    return folders.insert (.file content) (Path.walk true [] place ++ [fileName])

end ProjectConfig

namespace AnalysisOptions

/-- What the fields of an object ask for. -/
def decode : Decoder AnalysisOptions := Decoder.record fun fields =>
  let text (name : String) :=
    Decoder.field fields name name (Decoder.optional Decoder.string) (some none)
  let flag (name : String) := Decoder.field fields name name Decoder.bool (some false)
  AnalysisOptions.mk <$> Decoder.field fields "repo_path" "repo_path" Decoder.string none
    <*> text "base_branch" <*> text "head_branch"
    <*> flag "skip_breaking" <*> flag "skip_coverage" <*> flag "skip_docs"

end AnalysisOptions

end ChangeImpact
