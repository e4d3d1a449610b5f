import ChangeImpact.Import.Scan
import ChangeImpact.Staleness.RemovedName

/-!
# Stale documentation

Every line of every document is checked for what the change set made stale: the paths of deleted
files, the old paths of renamed files, and removed names as whole words. A document is read from the
working tree, or at the head ref if it is no valid text there; one that cannot be read is skipped.
-/

namespace ChangeImpact

open Text

/-- A line of a document that mentions something stale. -/
structure StaleReference where
  docFile : String
  line : Nat
  reference : String
  reason : String
  deriving DecidableEq, Repr

/-- The stale references in the documents of a repository. -/
structure StalenessReport where
  references : List StaleReference := []
  checkedFiles : List String := []
  deriving DecidableEq, Repr

namespace StalenessReport

/-- Patterns for the names of documents. -/
def docPatterns : List String := ["*.md", "*.mdx"]

/-- What a change set makes stale. -/
structure Stale where
  deleted : List String
  /-- Old and new paths. -/
  renamed : List (String × String)
  names : List RemovedName
  deriving DecidableEq, Repr

/-- The paths of the deleted files. -/
def deletedPaths (changed : List ChangedFile) : List String :=
  (changed.filter (·.status = .deleted)).map (·.path)

/-- The old and new paths of the renamed files. -/
def renamedPaths (changed : List ChangedFile) : List (String × String) :=
  changed.filterMap fun file =>
    match file.status, file.oldPath with
    | .renamed, some old => if old.isEmpty then none else some (old, file.path)
    | _, _ => none

/-- What a change set makes stale. -/
def Stale.ofChanges (repo : Git.Repository) (changed : List ChangedFile) (base head : String) :
    Stale :=
  ⟨deletedPaths changed, renamedPaths changed, RemovedName.ofChanges repo changed base head⟩

/-- Whether nothing is stale. -/
def Stale.isEmpty (stale : Stale) : Bool :=
  stale.deleted.isEmpty && stale.renamed.isEmpty && stale.names.isEmpty

/-- The stale references on one line. -/
def onLine (stale : Stale) (doc : String) (number : Nat) (line : List Char) :
    List StaleReference :=
  ((stale.deleted.filter fun path => contains path.toList line).map fun path =>
    ⟨doc, number, path, "referenced file was deleted"⟩) ++
  ((stale.renamed.filter fun (old, _) => contains old.toList line).map fun (old, new) =>
    ⟨doc, number, old, s!"referenced file was renamed to {new}"⟩) ++
  ((stale.names.filter (·.isMentioned line)).map fun removed =>
    ⟨doc, number, removed.name, s!"referenced symbol was removed from {removed.sourceFile}"⟩)

/-- The stale references in a document with the given text. -/
def inText (stale : Stale) (doc text : String) : List StaleReference :=
  ((newlineParts text.toList).zipIdx 1).flatMap fun (line, number) => onLine stale doc number line

/-- The text of a document. -/
def docText (repo : Git.Repository) (head path : String) : Option String :=
  match repo.root.locate repo.tree (Path.segments path) with
  | .ok (.file content) =>
    match readText content with
    | .ok text => some text
    | .error _ => RemovedName.shown repo head path
  | _ => RemovedName.shown repo head path

/-- The stale references in a document. -/
def inDocument (repo : Git.Repository) (head : String) (stale : Stale) (path : String) :
    List StaleReference :=
  match docText repo head path with
  | some text => inText stale path text
  | none => []

/-- The report on a change set. -/
def ofChanges (repo : Git.Repository) (changed : List ChangedFile) (base head : String)
    (config : ScanConfig) : StalenessReport :=
  let docs := collectFiles (repo.root.resolved.directory repo.tree) docPatterns config
  let stale := Stale.ofChanges repo changed base head
  if docs.isEmpty then {}
  else if stale.isEmpty then ⟨[], docs⟩
  else ⟨docs.flatMap (inDocument repo head stale), docs⟩

end StalenessReport

end ChangeImpact
