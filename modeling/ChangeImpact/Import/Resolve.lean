import ChangeImpact.Import.Specifier
import ChangeImpact.Path

/-!
# Resolving imports

A specifier names a path, read from the folder of the importing file. The file meant is the first
that exists of that path, the path with an extension of a module, and an index file below it.
-/

namespace ChangeImpact.Import

/-- Extensions of modules, in the order in which they are tried. -/
def moduleExtensions : List String := [".ts", ".tsx", ".js", ".jsx"]

/-- Index files, in the order in which they are tried. -/
def indexFiles : List String := ["index.ts", "index.tsx", "index.js", "index.jsx"]

/-- The files that a module path may mean, best first. The empty path is the top folder. -/
def moduleCandidates (path : String) : List String :=
  path :: moduleExtensions.map (path ++ ·) ++
    indexFiles.map fun index => if path.isEmpty then index else path ++ "/" ++ index

/-- The known file that a module path means. -/
def matchModule (path : String) (known : List String) : Option String :=
  (moduleCandidates path).find? known.contains

/-- The path that a specifier names, as seen from an importing file; `..` at the top leads nowhere
else. -/
def target (specifier importer : String) : String :=
  Path.trimSlashesLeft
    (Path.normalize (Path.join (Path.join "/" (Path.directory importer)) specifier))

/-- The known file that an import means. -/
def resolve (specifier importer : String) (known : List String) : Option String :=
  matchModule (target specifier importer) known

end ChangeImpact.Import
