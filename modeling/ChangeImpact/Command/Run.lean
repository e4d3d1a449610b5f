import ChangeImpact.Analyze
import ChangeImpact.Command.Arguments
import ChangeImpact.Number.Literal
import ChangeImpact.Report.Dot
import ChangeImpact.Report.Encode
import ChangeImpact.Report.Markdown
import ChangeImpact.Terminal.Screens

/-!
# The command line

Four commands report on a change set: a full analysis, its breaking changes, its impact and its
risk. A run ends with an exit status, which is 2 for wrong usage and for failures that are reported
to the user, and 1 where a command found what it was asked to watch for.
-/

namespace ChangeImpact.Command

open Text

/-- Where the program runs: the absolute path of the working directory, the file system from its
top, and git. -/
structure Workspace where
  path : String
  tree : Directory
  git : Git.Program

/-- What a run leaves: its exit status, its output, and the file system. -/
structure Outcome where
  status : Nat
  output : String
  tree : Directory

/-- Why a run breaks down without a report to the user. -/
inductive Breakdown
  | failure (cause : Failure)
  | markup (fault : Terminal.MarkupFault)

/-- The exit status of a run; one that breaks down ends with the status 1. -/
def exitStatus (result : Except Breakdown Outcome) : Nat :=
  match result with
  | .ok outcome => outcome.status
  | .error _ => 1

/-- The name and version that the program shows. -/
def versionLine : String := "primpact, version 0.1.0\n"

/-- The option that asks for help. -/
def helpOption : OptionSpec := { long := "--help", takesValue := false }

/-- Options before the command. -/
def globalOptions : List OptionSpec :=
  [{ long := "--version", takesValue := false },
    { long := "--verbose", short := some 'v', takesValue := false }, helpOption]

/-- The option for the repository. -/
def repoOption : OptionSpec := { long := "--repo", takesValue := true }

/-- The option for the output format. -/
def formatOption : OptionSpec := { long := "--format", takesValue := true }

/-- The commands: their names, their options, and how many other arguments they take. -/
def commands : List (String × List OptionSpec × Nat) :=
  [("analyze", [formatOption, { long := "--output", short := some 'o', takesValue := true },
      repoOption, { long := "--no-breaking", takesValue := false },
      { long := "--no-coverage", takesValue := false },
      { long := "--no-docs", takesValue := false }, helpOption], 2),
    ("breaking", [{ long := "--severity", takesValue := true }, formatOption, repoOption,
      helpOption], 2),
    ("impact", [{ long := "--depth", takesValue := true }, formatOption, repoOption, helpOption],
      1),
    ("risk", [{ long := "--threshold", takesValue := true }, formatOption, repoOption, helpOption],
      2)]

/-- One line on how a command is used. -/
def usageLine (command : String) : String := s!"Usage: primpact {command} [OPTIONS]\n"

namespace Workspace

variable (w : Workspace)

/-- The root that a path names, by its absolute path. -/
def root (path : String) : Root :=
  let named := (Root.ofPath w.path path).resolved
  { named with label := "/" ++ Path.ofSegments named.place }

/-- The repository at a root. -/
def repository (root : Root) : Git.Repository := ⟨root, w.tree, w.git⟩

/-- An outcome that leaves the files as they are. -/
def done (status : Nat) (output : String) : Except Breakdown Outcome := .ok ⟨status, output, w.tree⟩

/-- An outcome that shows a screen. -/
def shows (status : Nat) (screen : Terminal.Screen) : Except Breakdown Outcome := do
  w.done status (← screen.mapError .markup)

/-- Goes on with a result, or reports why there is none. -/
def report {α : Type} (result : Except Failure α) (next : α → Except Breakdown Outcome) :
    Except Breakdown Outcome :=
  match result with
  | .ok value => next value
  | .error cause =>
    match cause.message? with
    | some message => w.shows 2 (Terminal.failure message)
    | none => .error (.failure cause)

/-- Goes on with the repository that a path names, or reports that there is no such place. -/
def inRepository (path : String) (next : Git.Repository → Except Breakdown Outcome) :
    Except Breakdown Outcome :=
  let root := w.root path
  match root.locate w.tree [] with
  | .ok _ => next (w.repository root)
  | .error .nameTooLong => .error (.failure (.file .nameTooLong))
  | .error _ => w.shows 2 (Terminal.failure s!"Path does not exist: {path}")

/-- The file system with a report written to a path. -/
def write (path text : String) : Except FileFault Directory :=
  let target := Root.ofPath w.path path
  let above := { target with place := target.place.dropLast }
  match target.locate w.tree [], target.place.getLast? with
  | .ok (.folder _), _ | _, none => .error .isDirectory
  | .error .notDirectory, _ => .error .notDirectory
  | .error .nameTooLong, _ => .error .nameTooLong
  | _, some name => do
    if name = ".." then .error .notFound
    else if ← above.isDirectory w.tree then
      return w.tree.insert (.file (Utf8.encode text.toList)) (Path.walk true [] target.place)
    else .error .notFound

/-- A full analysis. -/
def analyze (parsed : Parsed) (format : String) (base head : Option String) :
    Except Breakdown Outcome :=
  w.inRepository ((parsed.value? "--repo").getD ".") fun repo =>
    let options : AnalysisOptions :=
      { repoPath := repo.root.label
        baseBranch := base
        headBranch := head
        skipBreaking := parsed.isSet "--no-breaking"
        skipCoverage := parsed.isSet "--no-coverage"
        skipDocs := parsed.isSet "--no-docs" }
    w.report (Analysis.run repo options none) fun analysis =>
      let text := if format = "json" then recordReport analysis else Markdown.analysis analysis
      match (parsed.value? "--output").filter fun o => !o.isEmpty with
      | none => w.done 0 (text ++ "\n")
      | some output =>
        match w.write output (text ++ "\n") with
        | .error fault => .error (.failure (.file fault))
        | .ok tree => do
          let shown ← (Terminal.success s!"Report written to {output}").mapError .markup
          return ⟨0, shown, tree⟩

/-- The breaking changes of a severity or worse. -/
def atLeast (threshold : Severity) (changes : List BreakingChange) : List BreakingChange :=
  changes.filter fun c => threshold.rank ≤ c.severity.rank

/-- The breaking changes. -/
def breaking (parsed : Parsed) (severity : Severity) (format : String) (base head : Option String) :
    Except Breakdown Outcome :=
  w.inRepository ((parsed.value? "--repo").getD ".") fun repo =>
    w.report (findBreaking repo base head) fun changes =>
      let found := atLeast severity changes
      if found.isEmpty then
        w.shows 0 (Terminal.success
          s!"No breaking changes detected at severity >= {severity.name}")
      else if format = "json" then
        match listReport found with
        | some text => w.done 1 (text ++ "\n")
        | none => .error (.failure .badNumber)
      else if format = "md" then w.done 1 (Markdown.breaking found ++ "\n")
      else w.shows 1 (Terminal.breaking found)

/-- The impact of a file or of the changes. -/
def impact (parsed : Parsed) (depth : Option Nat) (format : String) (file : Option String) :
    Except Breakdown Outcome :=
  w.inRepository ((parsed.value? "--repo").getD ".") fun repo =>
    w.report (findImpact repo file depth) fun graph =>
      if format = "json" then w.done 0 (recordReport graph ++ "\n")
      else if format = "dot" then w.done 0 (Dot.graph graph ++ "\n")
      else w.shows 0 (Terminal.impact graph)

/-- The risk of the changes. -/
def risk (parsed : Parsed) (threshold : Option Extended) (format : String)
    (base head : Option String) : Except Breakdown Outcome :=
  w.inRepository ((parsed.value? "--repo").getD ".") fun repo =>
    let options : AnalysisOptions :=
      { repoPath := repo.root.label, baseBranch := base, headBranch := head }
    w.report (Analysis.run repo options none) fun analysis => do
      let assessment := analysis.riskScore
      let shown ← if format = "json" then pure (recordReport assessment ++ "\n")
        else (Terminal.risk assessment).mapError .markup
      match threshold with
      | some limit =>
        if limit.leInt assessment.score then
          let limitText := Number.thresholdText limit
          let message :=
            s!"Risk score {assessment.score} meets or exceeds threshold {limitText}"
          let warning ← (Terminal.warning message).mapError .markup
          w.done 1 (shown ++ warning)
        else w.done 0 shown
      | none => w.done 0 shown

end Workspace

/-- A choice among some words, the first by default; `none` if the value is not among them. -/
def choice (parsed : Parsed) (long : String) (words : List String) : Option String :=
  match parsed.value? long with
  | none => words.head?
  | some value => if words.contains value then some value else none

/-- A value that an option gives in some form; `none` if it has another form. -/
def converted {α : Type} (parsed : Parsed) (long : String) (read : List Char → Option α) :
    Option (Option α) :=
  match parsed.value? long with
  | none => some none
  | some value => (read value.toList).map some

/-- An integer that is not negative. -/
def depth? (text : List Char) : Option Nat :=
  (integer? text).bind fun n => if n < 0 then none else some n.toNat

/-- Runs a command whose arguments have been read; `none` for wrong usage. -/
def dispatch (w : Workspace) (name : String) (parsed : Parsed) :
    Option (Except Breakdown Outcome) := do
  let first := parsed.positional[0]?
  let second := parsed.positional[1]?
  match name with
  | "analyze" =>
    let format ← choice parsed "--format" ["md", "json"]
    return w.analyze parsed format first second
  | "breaking" =>
    let severity ← choice parsed "--severity" ["low", "medium", "high"]
    let severity ← Severity.all.find? fun s => s.name == severity
    let format ← choice parsed "--format" ["md", "json", "text"]
    return w.breaking parsed severity format first second
  | "impact" =>
    let depth ← converted parsed "--depth" depth?
    let format ← choice parsed "--format" ["text", "json", "dot"]
    return w.impact parsed depth format first
  | _ =>
    let threshold ← converted parsed "--threshold" Number.real?
    let format ← choice parsed "--format" ["text", "json"]
    return w.risk parsed threshold format first second

/-- Runs a command with its arguments; `none` for wrong usage. -/
def runCommand (w : Workspace) (name : String) (arguments : List String) :
    Option (Except Breakdown Outcome) := do
  let (specs, count) ← commands.lookup name
  let parsed ← parse? specs true {} arguments
  if parsed.isSet "--help" then return w.done 0 (usageLine name)
  else if count < parsed.positional.length then none
  else dispatch w name parsed

/-- Runs the program; `none` for wrong usage. -/
def run? (w : Workspace) (arguments : List String) : Option (Except Breakdown Outcome) := do
  let parsed ← parse? globalOptions false {} arguments
  if parsed.isSet "--version" || parsed.isSet "--help" then
    let last := (parsed.options.map (·.1)).reverse.find? fun o => o == "--version" || o == "--help"
    return w.done 0 (if last = some "--version" then versionLine else usageLine "COMMAND")
  else
    match parsed.positional with
    | name :: rest => runCommand w name rest
    | [] => none

/-- Runs the program. Wrong usage leaves no output. -/
def run (w : Workspace) (arguments : List String) : Except Breakdown Outcome :=
  match run? w arguments with
  | some result => result
  | none => w.done 2 ""

end ChangeImpact.Command
