import ChangeImpact.Change.Summary
import ChangeImpact.Files.Directory

/-!
# Git repositories

The git program is a function from the arguments of a call to its reply. This file holds the
questions that are put to it and how the replies are understood. A question that cannot be answered
has an error whose message names the call.
-/

namespace ChangeImpact

open Text

namespace Git

/-- What a call of git leaves: its exit status and the bytes of its two outputs. -/
structure Reply where
  status : Int := 0
  out : Bytes := []
  err : Bytes := []

/-- Why git could not be started. -/
inductive LaunchFault
  | notFound
  | notDirectory
  | notPermitted
  deriving DecidableEq, Repr

/-- The git program, started in a fixed directory. -/
abbrev Program := List String → Except LaunchFault Reply

/-- Why a question has no answer. -/
inductive Fault
  | notStarted (root : String) (fault : LaunchFault)
  | failed (command detail : String)
  | noWorkTree (root : String)
  | unknownRef (ref detail : String)
  | missingFile (ref path : String)
  deriving DecidableEq, Repr

/-- The system's number and words for a launch that failed. -/
def LaunchFault.description : LaunchFault → String
  | .notFound => "[Errno 2] No such file or directory: 'git'"
  | .notDirectory => "[Errno 20] Not a directory: 'git'"
  | .notPermitted => "[Errno 13] Permission denied: 'git'"

/-- What is said about a question without an answer. -/
def Fault.message : Fault → String
  | .notStarted root fault => s!"Could not run git in {root}: {fault.description}"
  | .failed command detail => s!"git {command} failed: {detail}"
  | .noWorkTree root => s!"Not a git repository: {root}"
  | .unknownRef ref detail =>
    if detail.isEmpty then s!"Invalid git ref '{ref}'" else s!"Invalid git ref '{ref}': {detail}"
  | .missingFile ref path => s!"'{path}' does not exist at '{ref}'"

/-- The text without the blanks at both ends. -/
def stripped (text : String) : String := String.ofList (trim text.toList)

/-- The text of the output. -/
def Reply.outText (reply : Reply) : String := outputText reply.out

/-- The trimmed text of the error output. -/
def Reply.detail (reply : Reply) : String := stripped (outputText reply.err)

/-- A line that a search found. -/
structure FoundLine where
  file : String
  line : Int
  text : String
  deriving DecidableEq, Repr

/-- The questions that git is asked. -/
inductive Question
  | isWorkTree
  | commit (ref : String)
  | branches
  | changes (base head : String)
  | content (ref path : String)
  | search (pattern : String) (glob : Option String)
  deriving DecidableEq, Repr

/-- The arguments of the call that asks a question. -/
def Question.arguments : Question → List String
  | .isWorkTree => ["rev-parse", "--is-inside-work-tree"]
  | .commit ref => ["rev-parse", "--verify", "--quiet", ref ++ "^\x7bcommit\x7d"]
  | .branches => ["for-each-ref", "--format=%(refname:short)", "refs/heads/"]
  | .changes base head =>
    ["diff", "--numstat", "--summary", "-M", "-C", base ++ ".." ++ head]
  | .content ref path => ["show", ref ++ ":" ++ path]
  | .search pattern glob =>
    ["grep", "-n", "-e", pattern] ++
      match glob with
      | some glob => if glob.isEmpty then [] else ["--", glob]
      | none => []

/-- A repository: where it is, the files around it, and the git program started there. -/
structure Repository where
  root : Root
  tree : Directory
  git : Program

namespace Repository

variable (repo : Repository)

/-- Git's reply to a question, whatever its exit status. -/
def ask (question : Question) : Except Fault Reply :=
  match repo.git question.arguments with
  | .ok reply => .ok reply
  | .error fault => .error (.notStarted repo.root.label fault)

/-- The output of a call that has to succeed. -/
def output (question : Question) : Except Fault String := do
  let reply ← repo.ask question
  if reply.status = 0 then return reply.outText
  else .error (.failed (" ".intercalate question.arguments) reply.detail)

/-- Whether the root lies in a work tree. Git is not asked if the root is no directory. -/
def isWorkTree : Except FileFault Bool := do
  if ← repo.root.isDirectory repo.tree then
    match repo.ask .isWorkTree with
    | .ok reply => return reply.status = 0 && stripped reply.outText = "true"
    | .error _ => return false
  else return false

/-- Fails unless the root lies in a work tree. -/
def requireWorkTree : Except FileFault (Except Fault Unit) :=
  repo.isWorkTree.map fun found =>
    if found then .ok () else .error (.noWorkTree repo.root.label)

/-- The calls that checking for a work tree makes. -/
def workTreeCalls : List (List String) :=
  match repo.root.isDirectory repo.tree with
  | .ok true => [Question.isWorkTree.arguments]
  | _ => []

/-- The commit that a ref names. -/
def commit (ref : String) : Except Fault String := do
  let reply ← repo.ask (.commit ref)
  if reply.status = 0 then return stripped reply.outText
  else .error (.unknownRef ref reply.detail)

/-- The local branches. -/
def branches : Except Fault (List String) :=
  (repo.output .branches).map fun text =>
    ((lines text.toList).map trim).filterMap fun line =>
      if line.isEmpty then none else some (String.ofList line)

/-- Whether an error output says that a path does not exist at a ref. The last of the three phrases
has the path in quotes, on one line. -/
def saysMissing (text : List Char) : Bool :=
  contains "does not exist in".toList text || contains "exists on disk, but not in".toList text ||
    (newlineParts text).any fun line =>
      match cutAt? "path '".toList line with
      | some (_, rest) => contains "' does not exist".toList rest
      | none => false

/-- The content of a file at a ref. -/
def content (ref path : String) : Except Fault String := do
  let reply ← repo.ask (.content ref path)
  if reply.status = 0 then return reply.outText
  else if saysMissing (outputText reply.err).toList then .error (.missingFile ref path)
  else .error (.failed (" ".intercalate (Question.content ref path).arguments) reply.detail)

/-- The content of a file at a ref, or nothing if the ref has no such file. -/
def contentIfAny (ref path : String) : Except Fault (Option String) :=
  match repo.content ref path with
  | .ok text => .ok (some text)
  | .error (.missingFile _ _) => .ok none
  | .error fault => .error fault

/-- The found line that a line of search output shows: a file, a line number and a text, separated
by colons. Other lines show none; a number that is no decimal one is refused. -/
def foundLine? (line : List Char) : Except DiffSummary.Fault (Option FoundLine) :=
  match line.span (· != ':') with
  | (file, _ :: rest) =>
    match rest.span (· != ':') with
    | (number, _ :: text) =>
      if number.isEmpty || !number.all isDigit then .ok none
      else
        match integer? number with
        | some n => .ok (some ⟨String.ofList file, n, String.ofList text⟩)
        | none => .error .badNumber
    | _ => .ok none
  | _ => .ok none

/-- The lines that a search of the tracked files finds. -/
def search (pattern : String) (glob : Option String) :
    Except Fault (Except DiffSummary.Fault (List FoundLine)) := do
  let reply ← repo.ask (.search pattern glob)
  if reply.status = 1 && reply.detail.isEmpty then return .ok []
  else if reply.status ≠ 0 then .error (.failed "grep" reply.detail)
  else return (lines reply.outText.toList).foldlM (fun found line =>
    (foundLine? line).map fun next => found ++ next.toList) []

end Repository

end Git

end ChangeImpact
