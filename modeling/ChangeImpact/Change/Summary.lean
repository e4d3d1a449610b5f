import ChangeImpact.Git.QuotedPath
import ChangeImpact.Text.Digit
import ChangeImpact.Text.Lines

/-!
# Diff summaries

Git summarises a diff in lines of two kinds. A count line has the lines added and deleted and the
path, separated by tabs, with hyphens for a binary file. A summary line names an action, a mode for
created and deleted files, and the path, with a similarity in parentheses for renames and copies.
-/

namespace ChangeImpact

open Text

/-- One count line of a diff summary; the path may be in rename notation. -/
structure FileCount where
  file : String
  insertions : Int := 0
  deletions : Int := 0
  binary : Bool := false
  deriving DecidableEq, Repr

/-- What became of a file according to a summary line. -/
inductive SummaryAction
  | create
  | delete
  | rename
  | copy
  deriving DecidableEq, Repr

/-- A diff summary. -/
structure DiffSummary where
  files : List FileCount := []
  created : List String := []
  deleted : List String := []
  renamed : List String := []
  copied : List String := []
  deriving DecidableEq, Repr

namespace DiffSummary

/-- Why a diff summary cannot be read: a count or an escape is no number. -/
inductive Fault
  | badNumber
  deriving DecidableEq, Repr

/-- The words of the actions. -/
def actions : List (String × SummaryAction) :=
  [("create", .create), ("delete", .delete), ("rename", .rename), ("copy", .copy)]

/-- Reads the action of a summary line, with blanks before it and a space behind it. -/
def action : Scanner SummaryAction := do
  let _ ← Scanner.blanks
  let word ← Scanner.oneOf (actions.map (·.1))
  Scanner.exactly " "
  match actions.lookup word with
  | some found => pure found
  | none => failure

/-- Reads the mode of a created or deleted file. -/
def mode : Scanner Unit := do
  Scanner.exactly "mode "
  let _ ← Scanner.run1 isDecimal
  Scanner.exactly " "

/-- The text of a summary line behind the action, without its mode; a mode with nothing behind it
is the path itself. -/
def withoutMode (text : List Char) : List Char :=
  match mode text with
  | some ((), []) => text
  | some ((), rest) => rest
  | none => text

/-- The path without a similarity behind it; a similarity with nothing before it is the path. -/
def withoutSimilarity (text : List Char) : List Char :=
  match text.reverse with
  | ')' :: '%' :: back =>
    match back.takeWhile isDecimal, back.dropWhile isDecimal with
    | _ :: _, '(' :: ' ' :: c :: before => (c :: before).reverse
    | _, _ => text
  | _ => text

/-- The action and the printed path of a summary line. -/
def actionLine? (line : List Char) : Option (SummaryAction × String) :=
  match action line with
  | some (found, c :: rest) =>
    some (found, String.ofList (withoutSimilarity (withoutMode (c :: rest))))
  | _ => none

/-- The two columns and the path of a count line. -/
def columns? (line : List Char) : Option (List Char × List Char × List Char) :=
  match line.span (· != '\t') with
  | (added, _ :: rest) =>
    match rest.span (· != '\t') with
    | (deleted, _ :: path) => some (added, deleted, path)
    | _ => none
  | _ => none

/-- The entry of a count line with the given columns. -/
def count? (added deleted path : List Char) : Except Fault FileCount := do
  let some file := Git.unquote (String.ofList path) | .error .badNumber
  if added = ['-'] || deleted = ['-'] then return ⟨file, 0, 0, true⟩
  match integer? added, integer? deleted with
  | some insertions, some deletions => return ⟨file, insertions, deletions, false⟩
  | _, _ => .error .badNumber

/-- The summary with a file added to the list of an action. -/
def record (summary : DiffSummary) (found : SummaryAction) (path : String) : DiffSummary :=
  match found with
  | .create => { summary with created := summary.created ++ [path] }
  | .delete => { summary with deleted := summary.deleted ++ [path] }
  | .rename => { summary with renamed := summary.renamed ++ [path] }
  | .copy => { summary with copied := summary.copied ++ [path] }

/-- The summary with one more line. Lines of other kinds say nothing. -/
def addLine (summary : DiffSummary) (line : List Char) : Except Fault DiffSummary :=
  if line.all isBlank then .ok summary
  else
    match columns? line with
    | some (added, deleted, path) =>
      (count? added deleted path).map fun entry =>
        { summary with files := summary.files ++ [entry] }
    | none =>
      match actionLine? line with
      | none => .ok summary
      | some (found, printed) =>
        match Git.unquote printed with
        | some path => .ok (summary.record found path)
        | none => .error .badNumber

/-- The summary that some output of git prints. -/
def ofOutput (output : String) : Except Fault DiffSummary :=
  (lines output.toList).foldlM addLine {}

end DiffSummary

end ChangeImpact
