import ChangeImpact.Breaking
import ChangeImpact.Change.Classify
import ChangeImpact.Coverage.Report
import ChangeImpact.Impact
import ChangeImpact.Staleness.Report
import ChangeImpact.Text.Digit

/-!
# Risk factors

Six factors contribute to the risk of a change set, each with a score from 0 to 100 and a fixed
weight. The weights add up to one.
-/

namespace ChangeImpact

/-- One weighted contribution to the risk. -/
structure RiskFactor where
  name : String
  score : Binary64
  weight : Binary64
  description : String
  details : Option (List String) := none
  deriving DecidableEq

namespace RiskFactor

/-- The number nearest to a whole percentage. -/
def percent (n : Nat) : Binary64 := Binary64.ofRat (mkRat n 100)

/-- Details, if there are any. -/
def nonempty (details : List String) : Option (List String) :=
  if details.isEmpty then none else some details

/-- A score that counts something in steps, up to 100. -/
def capped (count step : Nat) : Nat := min (count * step) 100

/-- The score of some breaking changes: that of the worst one. -/
def breakingScore (changes : List BreakingChange) : Nat :=
  if changes.isEmpty then 0
  else if changes.any (·.severity = .high) then 100
  else if changes.any (·.severity = .medium) then 60
  else 30

/-- A breaking change in one line. -/
def breakingDetail (c : BreakingChange) : String :=
  s!"{c.kind.name} of \"{c.symbolName}\" in {c.filePath} ({c.severity.name})"

/-- The factor of the breaking changes. -/
def breaking (changes : List BreakingChange) : RiskFactor where
  name := "Breaking changes"
  score := Binary64.ofRat (breakingScore changes)
  weight := percent 30
  description :=
    if changes.isEmpty then "No breaking API changes detected."
    else s!"{changes.length} breaking change(s) detected."
  details := nonempty (changes.map breakingDetail)

/-- A gap in one line. -/
def gapDetail (gap : CoverageGap) : String :=
  gap.sourceFile ++ ": " ++
    if gap.testExists then "test exists but not updated" else "no test file found"

/-- The score of the untested changes: their share in percent. -/
def untestedScore (coverage : CoverageReport) : Binary64 :=
  if coverage.changedSources = 0 then 0
  else ((1 : Binary64).sub coverage.ratio).mul 100

/-- The factor of the untested changes. -/
def untested (coverage : CoverageReport) : RiskFactor where
  name := "Untested changes"
  score := untestedScore coverage
  weight := percent 25
  description :=
    if coverage.changedSources = 0 then "No source files changed."
    else s!"{coverage.coveredSources}/{coverage.changedSources} changed source files " ++
      "have corresponding test changes."
  details := nonempty (coverage.gaps.map gapDetail)

/-- The score of a number of changed lines. -/
def diffSizeScore (lines : Int) : Nat :=
  if 1000 ≤ lines then 100 else if 500 ≤ lines then 80 else if 100 ≤ lines then 50 else 0

/-- The number of changed lines. -/
def changedLines (changed : List ChangedFile) : Nat :=
  Number.total (changed.map fun file => file.additions + file.deletions)

/-- The factor of the size of the diff, if the number of changed lines can be written. -/
def diffSize? (changed : List ChangedFile) : Option RiskFactor := do
  let lines ← Text.countText? (changedLines changed)
  return {
    name := "Diff size"
    score := Binary64.ofRat (diffSizeScore (changedLines changed))
    weight := percent 15
    description := s!"{lines} total lines changed across {changed.length} file(s)." }

/-- A stale reference in one line. -/
def staleDetail (r : StaleReference) : String :=
  s!"{r.docFile}:{r.line} - \"{r.reference}\" ({r.reason})"

/-- The factor of the stale documentation. -/
def staleDocs (staleness : StalenessReport) : RiskFactor where
  name := "Stale documentation"
  score := Binary64.ofRat (capped staleness.references.length 20)
  weight := percent 10
  description :=
    if staleness.references.isEmpty then "No stale documentation references found."
    else s!"{staleness.references.length} stale documentation reference(s) found."
  details := nonempty (staleness.references.map staleDetail)

/-- The paths of the changed configuration files. -/
def configPaths (changed : List ChangedFile) : List String :=
  (changed.filter (·.category = .config)).map (·.path)

/-- The score of some configuration files. -/
def configScore (paths : List String) : Nat :=
  if paths.isEmpty then 0 else if paths.any isBuildConfig then 100 else 50

/-- The factor of the configuration changes. -/
def configChanges (changed : List ChangedFile) : RiskFactor where
  name := "Config file changes"
  score := Binary64.ofRat (configScore (configPaths changed))
  weight := percent 10
  description :=
    let count := (configPaths changed).length
    if (configPaths changed).isEmpty then "No configuration files changed."
    else if (configPaths changed).any isBuildConfig then
      s!"CI/build configuration changed ({count} config file(s))."
    else s!"{count} configuration file(s) changed."
  details := nonempty (configPaths changed)

/-- The number of affected files that are listed. -/
def maxListed : Nat := 20

/-- The factor of the breadth of the impact. -/
def impactBreadth (impact : ImpactGraph) : RiskFactor where
  name := "Impact breadth"
  score := Binary64.ofRat (capped impact.indirectlyAffected.length 10)
  weight := percent 10
  description :=
    if impact.indirectlyAffected.isEmpty then "No indirectly affected files detected."
    else s!"{impact.indirectlyAffected.length} file(s) indirectly affected " ++
      "through import dependencies."
  details := nonempty (impact.indirectlyAffected.take maxListed)

end RiskFactor

end ChangeImpact
