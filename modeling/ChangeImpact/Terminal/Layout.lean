import ChangeImpact.Number.Power
import ChangeImpact.Text.Lines

/-!
# Terminal layout

Trees, panels and tables in characters of fixed width. A tree has guides in front of its labels; a
panel spans the terminal; a table has a heavy head, its columns are as wide as their longest cell,
and its title is centred over it.
-/

namespace ChangeImpact.Terminal

open Text

/-- A tree of labels. -/
inductive Tree
  | node (label : String) (children : List Tree)

/-- The lines of a label, with one guide before the first and another before the others. -/
def labelLines (first other label : String) : List String :=
  match newlineParts label.toList with
  | [] => [first]
  | line :: more =>
    (first ++ String.ofList line) :: more.map fun line => other ++ String.ofList line

mutual

/-- The lines of a tree behind a guide for its first line and one for the others. -/
def treeLines (first other : String) : Tree → List String
  | .node label children =>
    labelLines first (if children.isEmpty then other else other ++ "│   ") label ++
      childLines other children

/-- The lines of a tree's children, all but the last of which are followed by another. -/
def childLines (guide : String) : List Tree → List String
  | [] => []
  | [child] => treeLines (guide ++ "└── ") (guide ++ "    ") child
  | child :: rest => treeLines (guide ++ "├── ") (guide ++ "│   ") child ++ childLines guide rest

end

/-- The lines of a tree. -/
def Tree.lines (tree : Tree) : List String := treeLines "" "" tree

/-- The width of a terminal. -/
def terminalWidth : Nat := 200

/-- A character several times. -/
def repeated (count : Nat) (c : Char) : String := String.ofList (List.replicate count c)

/-- A text with a filling on both sides up to a width; the left side is never the longer one. -/
def centred (width : Nat) (filling : Char) (text : String) : String :=
  let free := width - text.length
  repeated (free / 2) filling ++ text ++ repeated (free - free / 2) filling

/-- A text with blanks behind it up to a width. -/
def leftAligned (width : Nat) (text : String) : String :=
  text ++ repeated (width - text.length) ' '

/-- A text with blanks before it up to a width. -/
def rightAligned (width : Nat) (text : String) : String :=
  repeated (width - text.length) ' ' ++ text

/-- The lines of a panel with a title and one line of text. -/
def panelLines (title text : String) : List String :=
  let inner := terminalWidth - 4
  ["╭─" ++ centred inner '─' (" " ++ title ++ " ") ++ "─╮",
    "│ " ++ leftAligned inner text ++ " │",
    "╰" ++ repeated (terminalWidth - 2) '─' ++ "╯"]

/-- A column of a table: its head, how its cells are aligned, and the cells. -/
structure Column where
  head : String
  rightAligned : Bool
  cells : List String

/-- The width of a column's texts. -/
def Column.width (column : Column) : Nat :=
  (column.cells.map String.length).foldl max column.head.length

/-- A text aligned as the column's cells are. -/
def Column.align (column : Column) (text : String) : String :=
  if column.rightAligned then Terminal.rightAligned column.width text
  else leftAligned column.width text

/-- A rule across a table. -/
def ruleLine (columns : List Column) (left middle right : String) (line : Char) : String :=
  left ++ middle.intercalate (columns.map fun c => repeated (c.width + 2) line) ++ right

/-- A row of a table. -/
def rowLine (bar : String) (columns : List Column) (text : Column → String) : String :=
  bar ++ " " ++ s!" {bar} ".intercalate (columns.map fun c => c.align (text c)) ++ " " ++ bar

/-- The lines of a table with a title and the given number of rows. -/
def tableLines (title : String) (columns : List Column) (rows : Nat) : List String :=
  let width := Number.total (columns.map fun c => c.width + 3) + 1
  [centred width ' ' title, ruleLine columns "┏" "┳" "┓" '━', rowLine "┃" columns (·.head),
    ruleLine columns "┡" "╇" "┩" '━'] ++
  ((List.range rows).map fun row => rowLine "│" columns fun c => (c.cells[row]?).getD "") ++
  [ruleLine columns "└" "┴" "┘" '─']

end ChangeImpact.Terminal
