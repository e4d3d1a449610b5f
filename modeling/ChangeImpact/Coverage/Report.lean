import ChangeImpact.Change.Basic
import ChangeImpact.Coverage.Candidates
import ChangeImpact.Files.Directory
import ChangeImpact.Number.Binary64

/-!
# Coverage of a change set

A changed source file is covered if one of its expected tests exists and is among the changed tests;
otherwise it is a gap. The ratio is the share of covered files, and one if no source file changed.
There is no report if an expected test cannot be looked up.
-/

namespace ChangeImpact

/-- A changed source file none of whose tests changed. -/
structure CoverageGap where
  sourceFile : String
  expectedTests : List String := []
  testExists : Bool := false
  testChanged : Bool := false
  deriving DecidableEq

/-- How far the tests follow a change set. -/
structure CoverageReport where
  changedSources : Nat := 0
  coveredSources : Nat := 0
  ratio : Binary64 := 1
  gaps : List CoverageGap := []
  deriving DecidableEq

namespace Coverage

/-- Whether a path, read from a root, leads to a file; it may be too long to be looked up. -/
def isFile (root : Root) (tree : Directory) (path : String) : Except FileFault Bool :=
  let found :=
    if Path.isAbsolute path then (Root.ofPath "/" path).locate tree []
    else root.locate tree (Path.parts path)
  match found with
  | .ok (.file _) => .ok true
  | .error .nameTooLong => .error .nameTooLong
  | _ => .ok false

/-- The expected tests of a source file that exist below a root. -/
def existingTests (root : Root) (tree : Directory) (source : String) :
    Except FileFault (List String) :=
  (candidates source).filterM (isFile root tree)

/-- The gap that a source file leaves, unless one of its tests is among the changed ones. -/
def gap? (root : Root) (tree : Directory) (tests : List String) (source : String) :
    Except FileFault (Option CoverageGap) := do
  let expected ← existingTests root tree source
  return if expected.any tests.contains then none
    else some ⟨source, expected, !expected.isEmpty, false⟩

end Coverage

/-- The coverage of a change set. -/
def CoverageReport.ofChanges (root : Root) (tree : Directory) (changed : List ChangedFile) :
    Except FileFault CoverageReport := do
  let sources := sourcePaths changed
  let outcomes ← sources.mapM (Coverage.gap? root tree (testPaths changed))
  let covered := outcomes.countP Option.isNone
  if sources.isEmpty then return {}
  else
    return {
      changedSources := sources.length
      coveredSources := covered
      ratio := Binary64.ofRat (mkRat covered sources.length)
      gaps := outcomes.filterMap id }

end ChangeImpact
