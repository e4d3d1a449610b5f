import ChangeImpact.Path

/-!
# Conventional test files

The tests of a source file are expected beside it, in a `__tests__` folder beside it, and below the
top-level test folders at the place that the source file has below its source root.
-/

namespace ChangeImpact.Coverage

open ChangeImpact.Path

/-- Extensions of tests. -/
def testExtensions : List String := [".ts", ".tsx", ".js", ".jsx"]

/-- Folders at the top that hold tests. -/
def topTestFolders : List String := ["test", "tests"]

/-- Marks between the name and the extension of a test in a folder of tests. -/
def testMarks : List String := ["", ".test", ".spec"]

/-- The segments behind the last folder of a given name, if a folder has that name. -/
def behindLast (name : String) : List String → Option (List String)
  | [] => none
  | folder :: rest =>
    match behindLast name rest with
    | some found => some found
    | none => if folder = name then some rest else none

/-- The path below the last `src` folder, else below the last `lib` folder, else the path. -/
def belowSourceRoot (path : String) : String :=
  let above := folders path
  match behindLast "src" above <|> behindLast "lib" above with
  | some rest => ofSegments (rest ++ [fileName path])
  | none => path

/-- The expected tests of one extension, in order. -/
def candidatesWith (directory below base extension : String) : List String :=
  [join directory (base ++ ".test" ++ extension), join directory (base ++ ".spec" ++ extension)] ++
    (testMarks.map fun mark => join (join directory "__tests__") (base ++ mark ++ extension)) ++
    topTestFolders.flatMap fun top =>
      testMarks.map fun mark => join (join top below) (base ++ mark ++ extension)

/-- The expected tests of a source file, in order and without repetition. -/
def candidates (path : String) : List String :=
  let path := forwardSlashes path
  let base := withoutExtension (fileName path)
  let below := Path.directory (belowSourceRoot path)
  let all := testExtensions.flatMap (candidatesWith (Path.directory path) below base)
  (all.map normalize).eraseDups

end ChangeImpact.Coverage
