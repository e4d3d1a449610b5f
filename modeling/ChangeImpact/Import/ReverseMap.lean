/-!
# Reverse dependency maps

Which files import which. The map knows the files of a repository and the imports among them. It
holds each import once, in the order in which it was found.
-/

namespace ChangeImpact

/-- One file imports another. -/
structure ImportLink where
  importer : String
  imported : String
  deriving DecidableEq, Repr

/-- The known files and the imports among them. -/
structure ReverseMap where
  files : List String := []
  links : List ImportLink := []
  deriving DecidableEq, Repr

namespace ReverseMap

/-- The map that knows some files and no import. -/
def ofFiles (files : List String) : ReverseMap := ⟨files, []⟩

/-- The map with one more import; an import that is there already changes nothing. -/
def add (map : ReverseMap) (link : ImportLink) : ReverseMap :=
  if map.links.contains link then map else { map with links := map.links ++ [link] }

/-- The files that import a file, in the order in which that was found. -/
def dependents (map : ReverseMap) (path : String) : List String :=
  (map.links.filter (·.imported == path)).map (·.importer)

/-- Whether some file imports a file. -/
def contains (map : ReverseMap) (path : String) : Bool := map.links.any (·.imported == path)

/-- The imported files, in the order in which they were first found to be. -/
def imported (map : ReverseMap) : List String := (map.links.map (·.imported)).eraseDups

/-- The number of imported files. -/
def size (map : ReverseMap) : Nat := map.imported.length

/-- The files that import each of some files. -/
def consumers (map : ReverseMap) (targets : List String) : List (String × List String) :=
  targets.eraseDups.map fun target => (target, map.dependents target)

/-- No file has a dependent before any import is scanned. -/
@[simp] theorem dependents_ofFiles (files : List String) (path : String) :
    (ofFiles files).dependents path = [] := rfl

/-- A file is contained exactly when it has dependents. -/
theorem contains_eq (map : ReverseMap) (path : String) :
    map.contains path = !(map.dependents path).isEmpty := by
  simp only [contains, dependents, List.isEmpty_map]
  induction map.links with
  | nil => rfl
  | cons link rest ih =>
    by_cases h : link.imported == path <;> simp [h, ih]

end ReverseMap

end ChangeImpact
