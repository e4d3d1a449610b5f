import ChangeImpact.Change.Basic
import ChangeImpact.Export.Diff
import ChangeImpact.Export.Signature
import ChangeImpact.Git.Repository
import ChangeImpact.Import.ReverseMap

/-!
# Breaking changes

A change breaks users of a module if it removes an export or alters its kind or signature. Modified
and deleted modules are compared at the two refs; one that git cannot show is left out. The
consumers of a change are the files that import the module.
-/

namespace ChangeImpact

/-- Kinds of breaking changes. -/
inductive BreakingKind
  | removedExport
  | changedSignature
  | changedType
  | renamedExport
  deriving DecidableEq, Repr

/-- How bad a breaking change is. -/
inductive Severity
  | high
  | medium
  | low
  deriving DecidableEq, Repr

namespace BreakingKind

/-- The kind as reports write it. -/
def name : BreakingKind → String
  | removedExport => "removed_export"
  | changedSignature => "changed_signature"
  | changedType => "changed_type"
  | renamedExport => "renamed_export"

/-- All kinds. -/
def all : List BreakingKind := [removedExport, changedSignature, changedType, renamedExport]

/-- How bad changes of a kind are. -/
def severity : BreakingKind → Severity
  | removedExport => .high
  | changedSignature => .medium
  | changedType => .medium
  | renamedExport => .low

end BreakingKind

namespace Severity

/-- The severity as reports write it. -/
def name : Severity → String
  | high => "high"
  | medium => "medium"
  | low => "low"

/-- All severities. -/
def all : List Severity := [high, medium, low]

/-- The rank of a severity, lowest first. -/
def rank : Severity → Nat
  | low => 0
  | medium => 1
  | high => 2

end Severity

/-- A removal or an incompatible alteration of an export. -/
structure BreakingChange where
  filePath : String
  kind : BreakingKind
  symbolName : String
  before : String
  /-- What the export became, unless it was removed. -/
  after : Option String := none
  severity : Severity
  consumers : List String := []
  deriving DecidableEq, Repr

namespace BreakingChange

/-- Extensions of the modules that are compared. -/
def moduleExtensions : List String := [".ts", ".tsx", ".js", ".jsx"]

/-- Whether a changed file is compared. -/
def isCandidate (file : ChangedFile) : Bool :=
  moduleExtensions.contains (Path.extension file.path) &&
    (file.status = .modified || file.status = .deleted)

/-- The removal of a symbol. -/
def removal (path : String) (consumers : List String) (symbol : ExportedSymbol) : BreakingChange :=
  ⟨path, .removedExport, symbol.name, symbol.description, none,
    BreakingKind.severity .removedExport, consumers⟩

/-- The alteration of a symbol, if it is one that breaks. -/
def alteration? (path : String) (consumers : List String)
    (pair : ExportedSymbol × ExportedSymbol) : Option BreakingChange :=
  let (before, after) := pair
  let change (kind : BreakingKind) : BreakingChange :=
    ⟨path, kind, before.name, before.description, some after.description, kind.severity, consumers⟩
  if before.kind ≠ after.kind then some (change .changedType)
  else if (SignatureDiff.compare before.signature after.signature).changed then
    some (change .changedSignature)
  else none

/-- The breaking changes of a deleted module. -/
def ofDeleted (path : String) (consumers : List String) (base : String) : List BreakingChange :=
  (Export.symbols base).map (removal path consumers)

/-- The breaking changes of a modified module. -/
def ofModified (path : String) (consumers : List String) (base head : String) :
    List BreakingChange :=
  let diff := ExportDiff.ofTexts base head
  diff.removed.map (removal path consumers) ++
    diff.modified.filterMap (alteration? path consumers)

/-- The breaking changes of one file; none if a version of it is missing. -/
def ofFile (repo : Git.Repository) (base head : String) (map : Option ReverseMap)
    (file : ChangedFile) : Except Git.Fault (List BreakingChange) := do
  let some baseText ← repo.contentIfAny base file.path | return []
  let consumers := match map with
    | some map => map.dependents file.path
    | none => []
  if file.status = .deleted then return ofDeleted file.path consumers baseText
  let some headText ← repo.contentIfAny head file.path | return []
  return ofModified file.path consumers baseText headText

/-- The breaking changes of a change set, in its order. -/
def ofChanges (repo : Git.Repository) (base head : String) (changed : List ChangedFile)
    (map : Option ReverseMap) : List BreakingChange :=
  (changed.filter isCandidate).flatMap fun file =>
    match ofFile repo base head map file with
    | .ok changes => changes
    | .error _ => []

end BreakingChange

end ChangeImpact
