import ChangeImpact.Text.Glob
import ChangeImpact.Path

/-!
# Configuration

What users can configure: which files a scan leaves out, how many files it reads at a time, and how
far the impact of a change is followed.
-/

namespace ChangeImpact

/-- Settings for finding files. -/
structure ScanConfig where
  excludePatterns : List String :=
    ["node_modules", "dist", "build", "coverage", "vendor", "__pycache__", ".*"]
  batchSize : Nat := 50
  deriving DecidableEq, Repr

/-- The configuration of a project. -/
structure ProjectConfig where
  scan : ScanConfig := {}
  maxDepth : Nat := 3
  deriving DecidableEq, Repr

/-- What the caller asks of one analysis. -/
structure AnalysisOptions where
  repoPath : String
  baseBranch : Option String := none
  headBranch : Option String := none
  skipBreaking : Bool := false
  skipCoverage : Bool := false
  skipDocs : Bool := false
  deriving DecidableEq, Repr

/-- Whether a path, or a part of it, matches one of the patterns. -/
def isExcluded (patterns : List String) (path : String) : Bool :=
  patterns.any fun pattern =>
    Text.globMatches pattern path || (Path.parts path).any (Text.globMatches pattern)

end ChangeImpact
