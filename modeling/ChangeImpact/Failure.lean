import ChangeImpact.Git.Repository
import ChangeImpact.Json.Reader
import ChangeImpact.Record.Validated

/-!
# Failures

Everything that can make an analysis fail, by cause. Some causes have a message of their own.
-/

namespace ChangeImpact

open Text

/-- Why a configuration file cannot be used. -/
inductive ConfigFault
  | unreadable (fault : FileFault)
  | notText (fault : Utf8.Invalid)
  | notJson (error : Json.ReadError) (text : String)
  | notObject (kind : String)
  | invalid (violations : List Violation)

/-- Why an analysis, or a part of it, fails. -/
inductive Failure
  | git (fault : Git.Fault)
  | config (path : String) (fault : ConfigFault)
  | badNumber
  | invalid (violations : List Violation)
  | file (fault : FileFault)

/-- The failure for a diff summary that cannot be read. -/
def DiffSummary.Fault.failure : DiffSummary.Fault → Failure
  | .badNumber => .badNumber

/-- An answer of git as a step of an analysis. -/
def ofGit {α : Type} (answer : Except Git.Fault α) : Except Failure α :=
  answer.mapError .git

/-- An answer of the file system as a step of an analysis. -/
def ofFiles {α : Type} (answer : Except FileFault α) : Except Failure α :=
  answer.mapError .file

/-- A byte as two hexadecimal digits. -/
def hexByte (b : UInt8) : String := String.ofList (
  let digits := Nat.toDigits 16 b.toNat
  List.replicate (2 - digits.length) '0' ++ digits)

/-- What is wrong with bytes that are no text. -/
def invalidText (fault : Utf8.Invalid) : String :=
  let reason := match fault.fault with
    | .invalidStart => "invalid start byte"
    | .invalidContinuation => "invalid continuation byte"
    | .unexpectedEnd => "unexpected end of data"
  let place :=
    if fault.length = 1 then s!"byte 0x{hexByte fault.lead} in position {fault.position}"
    else s!"bytes in position {fault.position}-{fault.position + fault.length - 1}"
  s!"'utf-8' codec can't decode {place}: {reason}"

/-- One violation in words, after its place on a line of its own. -/
def Violation.message (v : Violation) : String :=
  let place := ".".intercalate (v.place.map fun step =>
    match step with
    | .field name => name
    | .item index => toString index)
  s!"{place}\n  Invalid value ({v.kind.name})"

/-- What is wrong with a configuration file. -/
def ConfigFault.message (path : String) : ConfigFault → String
  | .unreadable .isDirectory => s!"[Errno 21] Is a directory: '{path}'"
  | .unreadable .notDirectory => s!"[Errno 20] Not a directory: '{path}'"
  | .unreadable .exists => s!"[Errno 17] File exists: '{path}'"
  | .unreadable .notFound => s!"[Errno 2] No such file or directory: '{path}'"
  | .unreadable .nameTooLong => s!"[Errno 36] File name too long: '{path}'"
  | .notText fault => invalidText fault
  | .notJson error text => error.message text.toList
  | .notObject kind =>
    s!"primpact.config.ProjectConfig() argument after ** must be a mapping, not {kind}"
  | .invalid violations =>
    let count := violations.length
    let noun := if count = 1 then "error" else "errors"
    "\n".intercalate (s!"{count} validation {noun} for ProjectConfig" ::
      violations.map Violation.message)

/-- The message of a failure that the command line reports; none for one that it does not expect. -/
def Failure.message? : Failure → Option String
  | .git fault => some fault.message
  | .config path fault => some s!"Invalid configuration in {path}: {fault.message path}"
  | _ => none

end ChangeImpact
