import ChangeImpact.Command.Run

/-!
# Snapshots of a workspace

The command line runs on a snapshot: a JSON object with the absolute path of the working directory,
the texts of files by their paths, which are read from there, and git's replies by the arguments of
the calls, joined by blanks. A call that the snapshot does not hold is answered like a wrong call of
git.
-/

namespace ChangeImpact.Snapshot

open Text

/-- The bytes of a text field, none by default. -/
def bytes (value : Json) (name : String) : Bytes :=
  match value.field? name with
  | some (.string s) => Utf8.encode s.toList
  | _ => []

/-- A recorded reply. -/
def reply (value : Json) : Git.Reply :=
  let status := match value.field? "status" with
    | some (.int n) => n
    | _ => 0
  ⟨status, bytes value "out", bytes value "err"⟩

/-- The git program that gives the recorded replies. -/
def program (replies : Json) : Git.Program := fun arguments =>
  match replies.field? (" ".intercalate arguments) with
  | some value => .ok (reply value)
  | none => .ok ⟨129, [], Utf8.encode "usage: git".toList⟩

/-- The file system with a file at a path in the working directory `here`. -/
def addFile (here : String) (tree : Directory) (entry : String × Json) : Directory :=
  match entry.2 with
  | .string s =>
    tree.insert (.file (Utf8.encode s.toList)) (Root.ofPath here entry.1).resolved.place
  | _ => tree

/-- The file system of a snapshot with the working directory `here`. -/
def files (here : String) (value : Json) : Directory :=
  let tree := Directory.makeFolder (Root.ofPath here ".").resolved.place .empty
  match value.field? "files" with
  | some (.object fields) => fields.foldl (addFile here) tree
  | _ => tree

/-- The workspace that a text describes. -/
def workspace (text : String) : Except String Command.Workspace :=
  match Json.read text.toList with
  | .error error => .error (error.message text.toList)
  | .ok value =>
    let here := match value.field? "path" with
      | some (.string s) => s
      | _ => "/"
    .ok ⟨here, files here value, program ((value.field? "git").getD .null)⟩

end ChangeImpact.Snapshot
