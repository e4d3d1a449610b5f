import ChangeImpact.Number.Numeral
import ChangeImpact.Report.Summary

/-!
# Markdown reports

A full analysis as a document with one section for each part, and breaking changes as a table with
their consumers. Scores are written as whole numbers where they are whole, else with one place.
-/

namespace ChangeImpact

/-- A score: its integer if it is one, else the score to one place. -/
def scoreText (x : Binary64) : String :=
  if x.value.den = 1 then toString x.value.num else Number.fixed 1 x

/-- A kind of breaking change in words. -/
def BreakingKind.label : BreakingKind → String
  | .removedExport => "removed export"
  | .changedSignature => "changed signature"
  | .changedType => "changed type"
  | .renamedExport => "renamed export"

namespace Markdown

/-- A weight in its shortest form. -/
def weightText (x : Binary64) : String := String.ofList (Number.Layout.full.text x)

/-- The table of the risk factors. -/
def factorLines (factors : List RiskFactor) : List String :=
  if factors.isEmpty then ["No risk factors identified."]
  else
    ["| Factor | Score | Weight |", "|--------|------:|-------:|"] ++
      factors.map fun f => s!"| {f.name} | {scoreText f.score} | {weightText f.weight} |"

/-- The table of the changed files. -/
def fileLines (files : List ChangedFile) : List String :=
  if files.isEmpty then ["No files changed."]
  else
    ["| File | Status | +/- | Category |", "|------|--------|-----|----------|"] ++
      files.map fun f =>
        s!"| {f.path} | {f.status.name} | +{f.additions}/-{f.deletions} | {f.category.name} |"

/-- The table of the breaking changes. -/
def breakingLines (changes : List BreakingChange) : List String :=
  if changes.isEmpty then ["No breaking changes detected."]
  else
    ["| Symbol | Type | Severity | File |", "|--------|------|----------|------|"] ++
      changes.map fun c =>
        s!"| {c.symbolName} | {c.kind.label} | {c.severity.name} | {c.filePath} |"

/-- A gap with its expected tests. -/
def gapLines (gap : CoverageGap) : List String :=
  let status :=
    if gap.testExists then "test file exists but was not changed" else "no test file found"
  s!"- **{gap.sourceFile}**: {status}" :: gap.expectedTests.map ("  - " ++ ·)

/-- The section on test coverage. -/
def coverageLines (coverage : CoverageReport) : List String :=
  [s!"- **Changed source files:** {coverage.changedSources}",
    s!"- **Files with test changes:** {coverage.coveredSources}",
    s!"- **Coverage ratio:** {Number.percentage coverage.ratio}"] ++
    if coverage.gaps.isEmpty then []
    else ["", "### Gaps", ""] ++ coverage.gaps.flatMap gapLines

/-- The stale references. -/
def staleLines (references : List StaleReference) : List String :=
  if references.isEmpty then ["No stale references found."]
  else references.map fun r =>
    s!"- **{r.docFile}** (line {r.line}): `{r.reference}`, {r.reason}"

/-- The section on the impact graph. -/
def impactLines (graph : ImpactGraph) : List String :=
  ["- **Directly changed:** " ++ counted graph.directlyChanged.length "file",
    "- **Indirectly affected:** " ++ counted graph.indirectlyAffected.length "file"] ++
    if graph.edges.isEmpty then []
    else ["", "### Dependency Edges", ""] ++ graph.edges.map fun e =>
      s!"- {e.source} → {e.target} (`{ImpactEdge.relation}`)"

/-- A heading between blank lines. -/
def heading (text : String) : List String := ["", "## " ++ text, ""]

/-- A full analysis as a document. -/
def analysis (a : Analysis) : String :=
  let risk := a.riskScore
  "\n".intercalate (
    ["# PR Impact Analysis", "", s!"**Repository:** {a.repoPath}",
      s!"**Comparing:** `{a.baseBranch}` ← `{a.headBranch}`"] ++
    heading s!"Risk Score: {risk.score}/100 ({risk.level.name})" ++ factorLines risk.factors ++
    heading "Summary" ++ [a.summary] ++
    heading s!"Changed Files ({a.changedFiles.length})" ++ fileLines a.changedFiles ++
    heading s!"Breaking Changes ({a.breakingChanges.length})" ++ breakingLines a.breakingChanges ++
    heading "Test Coverage" ++ coverageLines a.testCoverage ++
    heading "Documentation Staleness" ++ staleLines a.docStaleness.references ++
    heading "Impact Graph" ++ impactLines a.impactGraph ++ [""])

/-- Breaking changes as a table with their consumers. -/
def breaking (changes : List BreakingChange) : String :=
  let noun := if changes.length = 1 then "breaking change" else "breaking changes"
  "\n".intercalate (
    ["# Breaking Changes", "", s!"Found **{changes.length}** {noun}.", "",
      "| File | Symbol | Type | Severity | Consumers |",
      "|------|--------|------|----------|-----------|"] ++
    changes.map fun c =>
      let consumers := if c.consumers.isEmpty then "none" else ", ".intercalate c.consumers
      s!"| {c.filePath} | {c.symbolName} | {c.kind.name} | {c.severity.name} | {consumers} |")

end Markdown

end ChangeImpact
