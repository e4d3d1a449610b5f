import ChangeImpact.Change.Basic
import ChangeImpact.Export.Extract
import ChangeImpact.Git.Repository

/-!
# Removed names

Names that disappear with a change set. A deleted source file takes along the stem of its own name,
unless that is a generic one, and the names it exported; a modified one takes along the names that
it exported before and does not export any more. A file that git cannot show takes nothing along.
-/

namespace ChangeImpact

open Text

/-- A name that disappeared, and the file that it came from. -/
structure RemovedName where
  name : String
  sourceFile : String
  deriving DecidableEq, Repr

namespace RemovedName

/-- Stems that say too little to look for. -/
def genericStems : List String :=
  ["index", "main", "app", "mod", "lib", "utils", "helpers", "types", "constants", "config"]

/-- First characters of an identifier. -/
def isIdentifierStart (c : Char) : Bool :=
  ('A' ≤ c && c ≤ 'Z') || ('a' ≤ c && c ≤ 'z') || c == '_' || c == '$'

/-- Further characters of an identifier. -/
def isIdentifierPart (c : Char) : Bool := isIdentifierStart c || ('0' ≤ c && c ≤ '9')

/-- Reads an identifier. -/
def identifier : Scanner (List Char) := fun text =>
  match text with
  | c :: rest =>
    if isIdentifierStart c then
      some (c :: rest.takeWhile isIdentifierPart, rest.dropWhile isIdentifierPart)
    else none
  | [] => none

/-- Reads the word `function`, which a star may follow. -/
def functionKeyword : Scanner Unit := do
  Scanner.exactly "function"
  let _ ← Scanner.blanks
  let _ ← Scanner.attempt (Scanner.exactly "*")
  let _ ← Scanner.blanks

/-- Reads a keyword of any other declaration. -/
def otherKeyword : Scanner Unit := do
  let _ ← Scanner.oneOf ["class", "const", "let", "var", "type", "interface", "enum"]
  let _ ← Scanner.blanks1

/-- Reads the keyword of a declaration. -/
def declarationKeyword : Scanner Unit := fun text =>
  match functionKeyword text with
  | some found => some found
  | none => otherKeyword text

/-- Reads an exported declaration up to its name. -/
def declaration : Scanner (List Char) := do
  Export.exportMark
  let _ ← Scanner.attempt (Export.spaced "default")
  let _ ← Scanner.attempt (Export.spaced "async")
  declarationKeyword
  identifier

/-- The names of a text's exported declarations, each once. -/
def exportNames (text : String) : List String :=
  ((occurrences declaration text.toList).map fun o => String.ofList o.value).eraseDups

/-- The content of a file at a ref, if git can show it. -/
def shown (repo : Git.Repository) (ref path : String) : Option String :=
  match repo.contentIfAny ref path with
  | .ok found => found
  | .error _ => none

/-- The stem of a path as a name to look for. -/
def stemOf (path : String) : List String :=
  let stem := Path.stem path
  if stem.isEmpty || genericStems.contains (Path.lowercase stem) then [] else [stem]

/-- The names that a deleted file takes along. -/
def ofDeleted (repo : Git.Repository) (base path : String) : List String :=
  stemOf path ++ exportNames ((shown repo base path).getD "")

/-- The names that a modified file takes along. -/
def ofModified (repo : Git.Repository) (base head path : String) : List String :=
  let kept := exportNames ((shown repo head path).getD "")
  (exportNames ((shown repo base path).getD "")).filter fun name => !kept.contains name

/-- The names that a changed file takes along. -/
def ofFile (repo : Git.Repository) (base head : String) (file : ChangedFile) : List RemovedName :=
  let names :=
    if file.category = .source then
      match file.status with
      | .deleted => ofDeleted repo base file.path
      | .modified => ofModified repo base head file.path
      | _ => []
    else []
  names.map fun name => ⟨name, file.path⟩

/-- The names that a change set takes along, in the order of its files. -/
def ofChanges (repo : Git.Repository) (changed : List ChangedFile) (base head : String) :
    List RemovedName :=
  changed.flatMap (ofFile repo base head)

/-- Whether a word starts or ends between two characters. -/
def isBoundary (left right : Option Char) : Bool := left.any isWord != right.any isWord

/-- Whether a name stands somewhere in a text, with a word boundary at both ends; `previous` is the
character before the text. -/
def standsIn (name : List Char) (previous : Option Char) : List Char → Bool
  | [] => false
  | c :: rest =>
    (match name.isPrefixOf? (c :: rest) with
      | some after => isBoundary previous name.head? && isBoundary name.getLast? after.head?
      | none => false) || standsIn name (some c) rest

/-- Whether a line mentions the name as a whole word. -/
def isMentioned (removed : RemovedName) (line : List Char) : Bool :=
  standsIn removed.name.toList none line

end RemovedName

end ChangeImpact
