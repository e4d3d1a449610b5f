import ChangeImpact.Text.Lowercase
import ChangeImpact.Text.Scan

/-!
# Paths

A path is a text whose segments are separated by slashes. Here are its segments, its directory, file
name and extension, and the joining and lexical normalisation of paths. A normalised path has no
empty segment, no `.` segment, and `..` only at the start of a relative one.
-/

namespace ChangeImpact.Path

open Text

/-- The texts between the slashes of a path. -/
def segments (path : String) : List String := (path.toList.splitOn '/').map String.ofList

/-- The path with the given segments. -/
def ofSegments (parts : List String) : String := "/".intercalate parts

/-- The path with its backslashes turned into slashes. -/
def forwardSlashes (path : String) : String := String.ofList (replaceChar '\\' '/' path.toList)

/-- The last segment of a path. -/
def fileName (path : String) : String := (segments path).getLastD ""

/-- The segments of a path before the last. -/
def folders (path : String) : List String := (segments path).dropLast

/-- The text without the slashes at its end. -/
def trimSlashesRight (path : String) : String :=
  String.ofList (path.toList.reverse.dropWhile (· == '/')).reverse

/-- The text without the slashes at its start. -/
def trimSlashesLeft (path : String) : String := String.ofList (path.toList.dropWhile (· == '/'))

/-- The path up to its last slash. Slashes at the end of that part are dropped, unless it consists
of slashes alone. -/
def directory (path : String) : String :=
  let lead := (path.toList.reverse.dropWhile (· != '/')).reverse
  if lead.all (· == '/') then String.ofList lead else trimSlashesRight (String.ofList lead)

/-- Whether a path starts at the root. -/
def isAbsolute (path : String) : Bool := path.toList.head? == some '/'

/-- The path `second`, read from the directory `first`. -/
def join (first second : String) : String :=
  if isAbsolute second then second
  else if first.isEmpty || first.toList.getLast? == some '/' then first ++ second
  else first ++ "/" ++ second

/-- One segment of a path onto the normalised segments before it, last first. At the root, `..`
leads nowhere else. -/
def step (rooted : Bool) (before : List String) (segment : String) : List String :=
  if segment = "" || segment = "." then before
  else if segment = ".." then
    match before with
    | [] => if rooted then [] else [".."]
    | last :: rest => if last = ".." then ".." :: before else rest
  else segment :: before

/-- The segments reached by walking `parts` from the place `start`. -/
def walk (rooted : Bool) (start parts : List String) : List String :=
  (parts.foldl (step rooted) start.reverse).reverse

/-- The slashes that a normalised path starts with: one for a rooted path, but two where it starts
with exactly two. -/
def rootMark (path : String) : String :=
  match path.toList with
  | '/' :: '/' :: '/' :: _ => "/"
  | '/' :: '/' :: _ => "//"
  | '/' :: _ => "/"
  | _ => ""

/-- The normalised form of a path; the empty path becomes a dot. -/
def normalize (path : String) : String :=
  let text := rootMark path ++ ofSegments (walk (isAbsolute path) [] (segments path))
  if text.isEmpty then "." else text

/-- The parts of a path without empty and `.` segments; the root mark of a rooted path comes first
and `..` is kept. -/
def parts (path : String) : List String :=
  let inner := (segments path).filter fun s => s != "" && s != "."
  if isAbsolute path then rootMark path :: inner else inner

/-- A path made of its parts: redundant slashes and dots are gone and the empty path is a dot. -/
def tidy (path : String) : String :=
  let text := rootMark path ++ ofSegments ((segments path).filter fun s => s != "" && s != ".")
  if text.isEmpty then "." else text

/-- The text of a file name from its last dot on, in lower case; empty without a dot. -/
def extension (path : String) : String :=
  let name := (fileName path).toList
  if name.contains '.' then
    String.ofList (lower ('.' :: (name.reverse.takeWhile (· != '.')).reverse))
  else ""

/-- A file name without its extension. Dots at the start of the name belong to no extension. -/
def withoutExtension (name : String) : String :=
  let chars := name.toList
  let stem := ((chars.reverse.dropWhile (· != '.')).drop 1).reverse
  if stem.all (· == '.') then name else String.ofList stem

/-- The part of a path's file name before its first dot. -/
def stem (path : String) : String :=
  String.ofList ((fileName (forwardSlashes path)).toList.takeWhile (· != '.'))

/-- Whether a text stands in front of a path or name. -/
def startsWith (lead text : String) : Bool := lead.toList.isPrefixOf text.toList

/-- Whether a text stands somewhere in a path or name. -/
def mentions (needle text : String) : Bool := contains needle.toList text.toList

/-- Lower case of a path or name. -/
def lowercase (text : String) : String := String.ofList (lower text.toList)

end ChangeImpact.Path
