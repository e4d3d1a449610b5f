import ChangeImpact.Text.Utf8
import ChangeImpact.Text.Lines
import ChangeImpact.Path

/-!
# Directories

A directory is a list of entries, each a file with its content or a folder; the file system is the
directory at its top. A place is looked up the way a file system does it: every step but the last
has to be a folder, and `..` leads to the folder above, of which there is none but itself at the
top. A name that is too long cannot be looked up in a folder, nor a path that is too long anywhere.
-/

namespace ChangeImpact

open Text

/-- The entries of a directory, in the order in which they are listed. -/
inductive Directory
  | empty
  | file (name : String) (content : Bytes) (rest : Directory)
  | folder (name : String) (inside : Directory) (rest : Directory)
  deriving DecidableEq, Inhabited

/-- What stands at a place. -/
inductive Entry
  | file (content : Bytes)
  | folder (inside : Directory)
  deriving DecidableEq

/-- Why nothing was found or nothing can be written at a place. -/
inductive FileFault
  | notFound
  | notDirectory
  | isDirectory
  | exists
  | nameTooLong
  deriving DecidableEq, Repr

/-- The number of bytes of a name or path. -/
def byteLength (text : String) : Nat := (Utf8.encode text.toList).length

/-- The most bytes that a name may have. -/
def maxNameBytes : Nat := 255

/-- The most bytes that a path may have. -/
def maxPathBytes : Nat := 4095

/-- Whether a name is too long to be looked up. -/
def isLongName (name : String) : Bool := maxNameBytes < byteLength name

namespace Directory

/-- The entry of a given name. -/
def entry? (name : String) : Directory → Option Entry
  | empty => none
  | file other content rest => if other = name then some (.file content) else rest.entry? name
  | folder other inside rest => if other = name then some (.folder inside) else rest.entry? name

/-- A directory whose only entry has the given name. -/
def single (name : String) : Entry → Directory
  | .file content => file name content empty
  | .folder inside => folder name inside empty

/-- The directory with an entry in place of the one of that name, or at the end. -/
def put (name : String) (entry : Entry) : Directory → Directory
  | empty => single name entry
  | file other content rest =>
    if other = name then
      match entry with
      | .file new => file name new rest
      | .folder inside => folder name inside rest
    else file other content (rest.put name entry)
  | folder other inside rest =>
    if other = name then
      match entry with
      | .file new => file name new rest
      | .folder new => folder name new rest
    else folder other inside (rest.put name entry)

/-- The directory without the entry of a given name. -/
def remove (name : String) : Directory → Directory
  | empty => empty
  | file other content rest =>
    if other = name then rest else file other content (rest.remove name)
  | folder other inside rest =>
    if other = name then rest else folder other inside (rest.remove name)

/-- The folder of a given name, empty if there is none. -/
def inside (name : String) (directory : Directory) : Directory :=
  match directory.entry? name with
  | some (.folder found) => found
  | _ => empty

/-- Puts an entry at a place, with folders on the way as needed. -/
def insert (entry : Entry) : List String → Directory → Directory
  | [], directory => directory
  | [name], directory => directory.put name entry
  | name :: rest, directory =>
    directory.put name (.folder (insert entry rest (directory.inside name)))

/-- Makes a folder at a place, with folders on the way as needed; a folder that is there is kept. -/
def makeFolder : List String → Directory → Directory
  | [], directory => directory
  | name :: rest, directory =>
    directory.put name (.folder (makeFolder rest (directory.inside name)))

/-- Removes the entry at a place. -/
def erase : List String → Directory → Directory
  | [], directory => directory
  | [name], directory => directory.remove name
  | name :: rest, directory =>
    match directory.entry? name with
    | some (.folder found) => directory.put name (.folder (erase rest found))
    | _ => directory

/-- Walks from `here`, below the folders `above`, innermost first. At the top, `..` leads nowhere
else. -/
def locateFrom (above : List Directory) (here : Directory) : List String → Except FileFault Entry
  | [] => .ok (.folder here)
  | name :: rest =>
    if name = ".." then
      match above with
      | [] => locateFrom [] here rest
      | up :: more => locateFrom more up rest
    else if isLongName name then .error .nameTooLong
    else
      match here.entry? name with
      | none => .error .notFound
      | some (.folder found) => locateFrom (here :: above) found rest
      | some (.file content) =>
        if rest.isEmpty then .ok (.file content) else .error .notDirectory

/-- What stands at a place below a directory. -/
def locate (directory : Directory) (place : List String) : Except FileFault Entry :=
  locateFrom [] directory place

/-- The tree with one more folder in a folder that is there. -/
def addFolder (tree : Directory) (above : List String) (name : String) :
    Except FileFault Directory :=
  match tree.locate above with
  | .error fault => .error fault
  | .ok (.file _) => .error .notDirectory
  | .ok (.folder inside) =>
    if name = ".." then .error .exists
    else if isLongName name then .error .nameTooLong
    else if (inside.entry? name).isSome then .error .exists
    else .ok (tree.insert (.folder empty) (Path.walk true [] (above ++ [name])))

/-- The tree with a folder that may be there already. -/
def keepFolder (tree : Directory) (above : List String) (name : String) :
    Except FileFault Directory :=
  match tree.addFolder above name with
  | .ok added => .ok added
  | .error fault =>
    match tree.locate (above ++ [name]) with
    | .ok (.folder _) => .ok tree
    | _ => .error fault

/-- The tree with a folder that may be there already, named from its last name up. If the folder
above it is missing, that one is made first. -/
def keepFolders (tree : Directory) : List String → Except FileFault Directory
  | [] => .ok tree
  | name :: above =>
    match tree.addFolder above.reverse name with
    | .error .notFound => do (← tree.keepFolders above).keepFolder above.reverse name
    | _ => tree.keepFolder above.reverse name

/-- The path of an entry of the directory with path `lead`. -/
def childPath (lead name : String) : String := if lead.isEmpty then name else lead ++ "/" ++ name

/-- The paths of the files whose name is wanted, below a directory with path `lead`, except for
excluded files and everything in excluded folders. -/
def search (wanted excluded : String → Bool) (lead : String) : Directory → List String
  | empty => []
  | file name _ rest =>
    let path := childPath lead name
    if wanted name && !excluded path then path :: rest.search wanted excluded lead
    else rest.search wanted excluded lead
  | folder name inside rest =>
    let path := childPath lead name
    (if excluded path then [] else inside.search wanted excluded path) ++
      rest.search wanted excluded lead

end Directory

/-- The text of a file's content, with unified newlines, if it is valid UTF-8. -/
def readText (content : Bytes) : Except Utf8.Invalid String :=
  (Utf8.decode content).map fun text => String.ofList (unifyNewlines text)

/-- The text of a program's output, with unified newlines and U+FFFD for what is not UTF-8. -/
def outputText (content : Bytes) : String :=
  String.ofList (unifyNewlines (Utf8.decodeLossy content))

/-- A directory as the user names it: its name in messages, by which the system is asked for it, and
its place in the file system, from the top. -/
structure Root where
  label : String
  place : List String
  deriving DecidableEq

namespace Root

/-- The directory that a path names in the working directory `here`. -/
def ofPath (here path : String) : Root :=
  ⟨Path.tidy path, (Path.segments (Path.join here path)).filter fun s => s != "" && s != "."⟩

/-- The place with every `..` taken back lexically. -/
def resolved (root : Root) : Root := { root with place := Path.walk true [] root.place }

/-- The path by which the system is asked for a place below a root. -/
def pathOf (root : Root) (place : List String) : String :=
  if place.isEmpty then root.label
  else if root.label = "." then Path.ofSegments place
  else Path.join root.label (Path.ofSegments place)

/-- What stands at a place below a root. -/
def lookUp (root : Root) (tree : Directory) (place : List String) : Except FileFault Entry :=
  tree.locate (root.place ++ place)

/-- What the system says of a place below a root, which it is asked for by a path. -/
def locate (root : Root) (tree : Directory) (place : List String) : Except FileFault Entry :=
  if maxPathBytes < byteLength (root.pathOf place) then .error .nameTooLong
  else root.lookUp tree place

/-- The directory that a root names, empty if there is none. -/
def directory (root : Root) (tree : Directory) : Directory :=
  match root.lookUp tree [] with
  | .ok (.folder found) => found
  | _ => .empty

/-- Whether a root is a directory, if its path is not too long for the question. -/
def isDirectory (root : Root) (tree : Directory) : Except FileFault Bool :=
  match root.locate tree [] with
  | .ok (.folder _) => .ok true
  | .error .nameTooLong => .error .nameTooLong
  | _ => .ok false

end Root

end ChangeImpact
