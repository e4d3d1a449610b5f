import ChangeImpact.Risk.Assessment

/-!
# Analyses and their summaries

An analysis of a change set gathers what was found; its summary says the most important in one to
three sentences.
-/

namespace ChangeImpact

/-- A count with its noun, in the singular for one. -/
def counted (count : Nat) (noun : String) : String :=
  if count = 1 then s!"{count} {noun}" else s!"{count} {noun}s"

/-- One to three sentences about a change set, if its line counts can be written. -/
def summarize? (changed : List ChangedFile) (breaking : List BreakingChange)
    (coverage : CoverageReport) (risk : RiskAssessment) : Option String := do
  let additions ← Text.countText? (Number.total (changed.map (·.additions)))
  let deletions ← Text.countText? (Number.total (changed.map (·.deletions)))
  let files := counted changed.length "file"
  let gaps := coverage.gaps.length
  let verb := if gaps = 1 then "lacks" else "lack"
  let score := s!"a {risk.level.name} risk score of {risk.score}/100"
  let found := counted breaking.length "breaking change"
  return " ".intercalate (
    [s!"This PR changes {files} (+{additions}/-{deletions}) with {score}."] ++
    (if breaking.isEmpty then [] else [s!"Found {found} affecting exported APIs."]) ++
    (if gaps = 0 then []
      else [counted gaps "source file" ++ s!" {verb} corresponding test changes."]))

/-- Everything that was found about a change set. -/
structure Analysis where
  repoPath : String
  baseBranch : String
  headBranch : String
  changedFiles : List ChangedFile := []
  breakingChanges : List BreakingChange := []
  testCoverage : CoverageReport
  docStaleness : StalenessReport
  impactGraph : ImpactGraph
  riskScore : RiskAssessment
  summary : String
  deriving DecidableEq

end ChangeImpact
