import ChangeImpact.Change.Basic
import ChangeImpact.Import.ReverseMap

/-!
# Impact graphs

The impact of a change set is followed from the changed source files to the files that import them,
round by round up to a given number of rounds. A file is expanded once, in the round after the one
that reached it, and every import of an expanded file is an edge of the graph.
-/

namespace ChangeImpact

/-- An edge of an impact graph: `source` imports `target`. -/
structure ImpactEdge where
  source : String
  target : String
  deriving DecidableEq, Repr

/-- The word for the relation that an edge stands for. -/
def ImpactEdge.relation : String := "imports"

/-- The files that a change set touches directly and through imports. -/
structure ImpactGraph where
  directlyChanged : List String := []
  indirectlyAffected : List String := []
  edges : List ImpactEdge := []
  deriving DecidableEq, Repr

namespace ImpactGraph

/-- The state of the search: where it began, what it reached in earlier rounds and in the last one,
and the edges so far. -/
structure Search where
  start : List String
  reached : List String
  frontier : List String
  edges : List ImpactEdge
  deriving DecidableEq, Repr

namespace Search

/-- A search that begins at some files. -/
def begin (start : List String) : Search := ⟨start, [], start, []⟩

/-- Whether a file was reached or is one of the first. -/
def hasVisited (s : Search) (path : String) : Bool :=
  s.start.contains path || s.reached.contains path

/-- Follows one import of a file. -/
def follow (target : String) (s : Search) (dependent : String) : Search :=
  let s := { s with edges := s.edges ++ [⟨dependent, target⟩] }
  if s.hasVisited dependent then s
  else { s with reached := s.reached ++ [dependent], frontier := s.frontier ++ [dependent] }

/-- Follows every import of a file. -/
def expand (map : ReverseMap) (s : Search) (path : String) : Search :=
  (map.dependents path).foldl (follow path) s

/-- One round: expands the files that the last round reached. -/
def round (map : ReverseMap) (s : Search) : Search :=
  s.frontier.foldl (expand map) { s with frontier := [] }

/-- A number of rounds; nothing more happens once a round reaches no file. -/
def rounds (map : ReverseMap) : Nat → Search → Search
  | 0, s => s
  | depth + 1, s => if s.frontier.isEmpty then s else rounds map depth (round map s)

end Search

/-- The impact of a change set up to a number of rounds. -/
def ofChanges (map : ReverseMap) (changed : List ChangedFile) (maxDepth : Nat) : ImpactGraph :=
  let start := sourcePaths changed
  let s := Search.rounds map maxDepth (.begin start)
  ⟨start, s.reached, s.edges⟩

end ImpactGraph

end ChangeImpact
