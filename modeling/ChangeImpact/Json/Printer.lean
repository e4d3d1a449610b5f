import ChangeImpact.Json.Value
import ChangeImpact.Number.Numeral

/-!
# Writing JSON

Values are written on one line or with two blanks of indentation for each level. A style says
whether characters beyond ASCII are escaped and how numbers are laid out. An empty list or object is
written without a line break. A writer may refuse integers of too many digits.
-/

namespace ChangeImpact.Json

open Number

/-- What differs between the ways of writing JSON. -/
structure Style where
  /-- Whether every character outside of printable ASCII is escaped. -/
  asciiOnly : Bool
  /-- How numbers that are not integers are laid out. -/
  layout : Layout

/-- The style of a report on one record. -/
def Style.record : Style := ⟨false, .brief⟩

/-- The style of lists of records and of configuration files. -/
def Style.ascii : Style := ⟨true, .full⟩

/-- The style that keeps all characters and writes numbers as scripts do. -/
def Style.plain : Style := ⟨false, .full⟩

/-- A code unit as four hexadecimal digits behind `\u`. -/
def unitEscape (n : Nat) : List Char :=
  let digits := Nat.toDigits 16 n
  '\\' :: 'u' :: (List.replicate (4 - digits.length) '0' ++ digits)

/-- One character as it is written inside quotes. -/
def Style.char (style : Style) (c : Char) : List Char :=
  match c with
  | '"' => ['\\', '"']
  | '\\' => ['\\', '\\']
  | '\n' => ['\\', 'n']
  | '\r' => ['\\', 'r']
  | '\t' => ['\\', 't']
  | '\x08' => ['\\', 'b']
  | '\x0c' => ['\\', 'f']
  | _ =>
    let n := c.toNat
    if n < 0x20 then unitEscape n
    else if !style.asciiOnly || n < 0x7f then [c]
    else if n < 0x10000 then unitEscape n
    else unitEscape (0xD800 + (n - 0x10000) / 0x400) ++ unitEscape (0xDC00 + (n - 0x10000) % 0x400)

/-- A text in quotes. -/
def Style.quoted (style : Style) (s : String) : List Char :=
  '"' :: s.toList.flatMap style.char ++ ['"']

/-- A number that is not an integer. -/
def Style.real (style : Style) : Extended → List Char
  | .finite x => style.layout.text x
  | .infinite negative => (if negative then "-Infinity" else "Infinity").toList
  | .nan => "NaN".toList

/-- A new line and the indentation of a level. -/
def newline (level : Nat) : List Char := '\n' :: List.replicate (2 * level) ' '

mutual

/-- A value at a level of indentation. -/
def Style.indented (style : Style) (level : Nat) : Json → List Char
  | .null => "null".toList
  | .bool b => (if b then "true" else "false").toList
  | .int n => (toString n).toList
  | .real x => style.real x
  | .string s => style.quoted s
  | .list [] => ['[', ']']
  | .list (item :: rest) =>
    '[' :: newline (level + 1) ++ style.indented (level + 1) item ++
      style.indentedItems (level + 1) rest ++ newline level ++ [']']
  | .object [] => ['\x7b', '\x7d']
  | .object ((name, item) :: rest) =>
    '\x7b' :: newline (level + 1) ++ style.quoted name ++ ':' :: ' ' ::
      style.indented (level + 1) item ++ style.indentedFields (level + 1) rest ++ newline level ++
      ['\x7d']

/-- The items after the first. -/
def Style.indentedItems (style : Style) (level : Nat) : List Json → List Char
  | [] => []
  | item :: rest =>
    ',' :: newline level ++ style.indented level item ++ style.indentedItems level rest

/-- The fields after the first. -/
def Style.indentedFields (style : Style) (level : Nat) : List (String × Json) → List Char
  | [] => []
  | (name, item) :: rest =>
    ',' :: newline level ++ style.quoted name ++ ':' :: ' ' :: style.indented level item ++
      style.indentedFields level rest

end

mutual

/-- A value on one line. -/
def Style.compact (style : Style) : Json → List Char
  | .null => "null".toList
  | .bool b => (if b then "true" else "false").toList
  | .int n => (toString n).toList
  | .real x => style.real x
  | .string s => style.quoted s
  | .list [] => ['[', ']']
  | .list (item :: rest) => '[' :: style.compact item ++ style.compactItems rest ++ [']']
  | .object [] => ['\x7b', '\x7d']
  | .object ((name, item) :: rest) =>
    '\x7b' :: style.quoted name ++ ':' :: style.compact item ++ style.compactFields rest ++ ['\x7d']

/-- The items after the first. -/
def Style.compactItems (style : Style) : List Json → List Char
  | [] => []
  | item :: rest => ',' :: style.compact item ++ style.compactItems rest

/-- The fields after the first. -/
def Style.compactFields (style : Style) : List (String × Json) → List Char
  | [] => []
  | (name, item) :: rest =>
    ',' :: style.quoted name ++ ':' :: style.compact item ++ style.compactFields rest

end

/-- A value with indentation. -/
def write (style : Style) (value : Json) : String := String.ofList (style.indented 0 value)

/-- Whether an integer has no more digits than a limit admits, if there is a limit. -/
def isShort (limit : Option Nat) (n : Int) : Bool :=
  limit.all fun most => (Nat.toDigits 10 n.natAbs).length ≤ most

mutual

/-- Whether no integer in a value has more digits than a limit admits. -/
def hasShort (limit : Option Nat) : Json → Bool
  | .null | .bool _ | .real _ | .string _ => true
  | .int n => isShort limit n
  | .list items => hasShortItems limit items
  | .object fields => hasShortFields limit fields

/-- Whether this is so of all items of a list. -/
def hasShortItems (limit : Option Nat) : List Json → Bool
  | [] => true
  | item :: rest => hasShort limit item && hasShortItems limit rest

/-- Whether this is so of the values of all fields. -/
def hasShortFields (limit : Option Nat) : List (String × Json) → Bool
  | [] => true
  | (_, item) :: rest => hasShort limit item && hasShortFields limit rest

end

/-- A value with indentation, unless one of its integers has more digits than `limit`. -/
def writeWithin (limit : Option Nat) (style : Style) (value : Json) : Option String :=
  if hasShort limit value then some (write style value) else none

/-- A value on one line. -/
def writeLine (style : Style) (value : Json) : String := String.ofList (style.compact value)

end ChangeImpact.Json
