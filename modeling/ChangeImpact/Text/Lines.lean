/-!
# Lines

Three notions of a line end meet here. Text that is read has its carriage returns turned into
newlines; the output of a program is cut at every character that breaks a line; a document is cut at
newlines alone.
-/

namespace ChangeImpact.Text

/-- The text with `\r\n` and `\r` turned into `\n`. -/
def unifyNewlines : List Char → List Char
  | [] => []
  | '\r' :: '\n' :: rest => '\n' :: unifyNewlines rest
  | c :: rest => (if c = '\r' then '\n' else c) :: unifyNewlines rest

/-- Characters that break a line: the ASCII ones from newline to carriage return and from 28 to 30,
the next-line control, and the line and paragraph separators of Unicode. -/
def isLineBreak (c : Char) : Bool :=
  let n := c.toNat
  (10 ≤ n && n ≤ 13) || (28 ≤ n && n ≤ 30) || n == 0x85 || n == 0x2028 || n == 0x2029

/-- Puts a character in front of the first line. -/
def consLine (c : Char) : List (List Char) → List (List Char)
  | [] => [[c]]
  | line :: more => (c :: line) :: more

/-- The lines of a text, without the breaks; a break at the end starts no further line. -/
def lines : List Char → List (List Char)
  | [] => []
  | '\r' :: '\n' :: rest => [] :: lines rest
  | c :: rest => if isLineBreak c then [] :: lines rest else consLine c (lines rest)

/-- The parts of a document between its newlines. -/
def newlineParts (text : List Char) : List (List Char) := text.splitOn '\n'

@[simp] theorem lines_nil : lines [] = [] := rfl

end ChangeImpact.Text
