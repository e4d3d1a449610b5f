import ChangeImpact.Number.Numeral
import ChangeImpact.Report.Summary
import ChangeImpact.Terminal.Layout
import ChangeImpact.Terminal.Markup

/-!
# Screens

What the command line shows to people: messages, breaking changes, the impact of a change set as a
tree, and its risk as a panel with a table. Names and paths are shown as marked-up text, so that
whatever looks like a style tag in them is not shown.
-/

namespace ChangeImpact.Terminal

/-- A text for the terminal, or why it cannot be shown. -/
abbrev Screen := Except MarkupFault String

/-- A marked-up text on lines of its own. -/
def line (markup : String) : Screen := (plainText markup).map (· ++ "\n")

/-- Several screens, one after the other. -/
def stacked (screens : List Screen) : Screen := do
  return String.join (← screens.mapM id)

/-- A message about something that went well. -/
def success (message : String) : Screen := line ("[green]✓[/green] " ++ message)

/-- A message about something that failed. -/
def failure (message : String) : Screen := line ("[red]✗[/red] " ++ message)

/-- A warning. -/
def warning (message : String) : Screen := line ("[yellow]![/yellow] " ++ message)

/-- One breaking change. -/
def breakingChange (c : BreakingChange) : Screen :=
  stacked (
    [line s!"  {c.severity.name}  [bold]{c.symbolName}[/bold] ({c.kind.name})",
      line s!"       [dim]{c.filePath}[/dim]", line s!"       [red]- {c.before}[/red]"] ++
    (match c.after with
      | some after => if after.isEmpty then [] else [line s!"       [green]+ {after}[/green]"]
      | none => []) ++
    (if c.consumers.isEmpty then []
      else [line ("       [dim]Consumers:[/dim] " ++ ", ".intercalate c.consumers)]) ++
    [.ok "\n"])

/-- Breaking changes. -/
def breaking (changes : List BreakingChange) : Screen :=
  let noun := if changes.length = 1 then "breaking change" else "breaking changes"
  stacked (line s!"Found {changes.length} {noun}:\n" :: changes.map breakingChange)

/-- A leaf of a tree with a styled label and something plain behind it. -/
def leaf (style path note : String) (children : List Tree) : Except MarkupFault Tree :=
  (plainText s!"[{style}]{path}{note}[/{style}]").map (.node · children)

/-- The branch of a directly changed file: the files that import it. -/
def changedBranch (edges : List ImpactEdge) (path : String) : Except MarkupFault Tree := do
  let importers ← (edges.filter (·.target == path)).mapM fun e =>
    leaf "dim" e.source s!" ({ImpactEdge.relation})" []
  leaf "cyan" path "" importers

/-- An impact graph as a tree, with its counts below. -/
def impact (graph : ImpactGraph) : Screen := do
  let changed ← graph.directlyChanged.mapM (changedBranch graph.edges)
  let affected ← graph.indirectlyAffected.mapM fun path => leaf "yellow" path "" []
  let tree := Tree.node "Impact Graph" (.node "Directly Changed" changed ::
    if affected.isEmpty then [] else [.node "Indirectly Affected" affected])
  let noun := if graph.edges.length = 1 then "edge" else "edges"
  let direct := graph.directlyChanged.length
  let indirect := graph.indirectlyAffected.length
  let counts :=
    s!"{direct} directly changed, {indirect} indirectly affected, {graph.edges.length} {noun}"
  return String.join ((tree.lines ++ [counts]).map (· ++ "\n"))

/-- The details of a risk factor, if it has any. -/
def factorDetails (factor : RiskFactor) : Screen :=
  match factor.details with
  | some (first :: rest) =>
    stacked (line s!"\n[bold]{factor.name}:[/bold]" ::
      (first :: rest).map fun detail => line s!"  [dim]- {detail}[/dim]")
  | _ => .ok ""

/-- The columns of the table of risk factors. -/
def factorColumns (factors : List RiskFactor) : List Column :=
  [⟨"Factor", false, factors.map (·.name)⟩,
    ⟨"Score", true, factors.map fun f => Number.fixed 0 f.score⟩,
    ⟨"Weight", true, factors.map fun f => Number.fixed 2 f.weight⟩,
    ⟨"Contribution", true, factors.map fun f => Number.fixed 1 (f.score.mul f.weight)⟩,
    ⟨"Description", false, factors.map (·.description)⟩]

/-- A risk assessment. -/
def risk (r : RiskAssessment) : Screen :=
  let panel := panelLines "Risk Assessment" s!"Score: {r.score}/100  Level: {r.level.capitals}"
  let table := tableLines "Factor Breakdown" (factorColumns r.factors) r.factors.length
  stacked (.ok (String.join ((panel ++ table).map (· ++ "\n"))) :: r.factors.map factorDetails)

end ChangeImpact.Terminal
