import ChangeImpact.Impact

/-!
# Graph descriptions

An impact graph in the DOT language: a red box for each changed file, a yellow one for each affected
file, and an arrow for each import. Paths are in quotes, with a backslash before every quote and
every backslash.
-/

namespace ChangeImpact.Dot

/-- The characters of a path inside its quotes. -/
def escape (text : List Char) : List Char :=
  text.flatMap fun c => if c = '\\' || c = '"' then ['\\', c] else [c]

/-- A path in quotes. -/
def quoted (path : String) : String := String.ofList ('"' :: escape path.toList ++ ['"'])

/-- The box of a changed file. -/
def changedNode (path : String) : String :=
  "  " ++ quoted path ++ " [fillcolor=\"#ff6b6b\", fontcolor=\"white\"];"

/-- The box of an affected file. -/
def affectedNode (path : String) : String := "  " ++ quoted path ++ " [fillcolor=\"#ffd93d\"];"

/-- The arrow of an import. -/
def arrow (e : ImpactEdge) : String :=
  "  " ++ quoted e.source ++ " -> " ++ quoted e.target ++
    " [label=" ++ quoted ImpactEdge.relation ++ "];"

/-- The lines of a graph's description. -/
def graphLines (graph : ImpactGraph) : List String :=
  ["digraph impact \x7b", "  rankdir=LR;", "  node [shape=box, style=filled];", ""] ++
    graph.directlyChanged.map changedNode ++ graph.indirectlyAffected.map affectedNode ++ [""] ++
    graph.edges.map arrow ++ ["\x7d"]

/-- A graph's description. -/
def graph (g : ImpactGraph) : String := "\n".intercalate (graphLines g)

end ChangeImpact.Dot
