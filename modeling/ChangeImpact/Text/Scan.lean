import ChangeImpact.Text.Blank
import ChangeImpact.Text.Word

/-!
# Scanners

A scanner reads a value at the start of a text and leaves the rest, or refuses the text. Longer
forms are put together from shorter ones, and `occurrences` finds the places of a text where a
scanner succeeds, from left to right, each search going on where the last occurrence ended.
-/

namespace ChangeImpact.Text

/-- Reads a value at the start of a text and leaves the rest. -/
abbrev Scanner := StateT (List Char) Option

namespace Scanner

/-- Reads exactly `lead`. -/
def exactly (lead : String) : Scanner Unit := fun text =>
  (lead.toList.isPrefixOf? text).map ((), ·)

/-- Reads the longest run of characters of a class, which may be empty. -/
def run (p : Char → Bool) : Scanner (List Char) := fun text =>
  some (text.takeWhile p, text.dropWhile p)

/-- Reads the longest run of characters of a class, which may not be empty. -/
def run1 (p : Char → Bool) : Scanner (List Char) := fun text =>
  match text.takeWhile p with
  | [] => none
  | found => some (found, text.dropWhile p)

/-- Reads any blanks. -/
def blanks : Scanner (List Char) := run isBlank

/-- Reads at least one blank. -/
def blanks1 : Scanner (List Char) := run1 isBlank

/-- Reads a name. -/
def name : Scanner (List Char) := run1 isWord

/-- Reads what `p` reads if it can, else nothing. -/
def attempt (p : Scanner Unit) : Scanner Bool := fun text =>
  match p text with
  | some ((), rest) => some (true, rest)
  | none => some (false, text)

/-- Reads the first of several words that the text starts with. -/
def oneOf : List String → Scanner String
  | [] => fun _ => none
  | word :: more => fun text =>
    match word.toList.isPrefixOf? text with
    | some rest => some (word, rest)
    | none => oneOf more text

end Scanner

/-- A place where a scanner succeeded. -/
structure Occurrence (α : Type) where
  /-- The text to the left, last character first. -/
  before : List Char
  /-- What was read. -/
  value : α
  /-- The text to the right. -/
  after : List Char

/-- Occurrences past the next `skip` characters, where `before` lies to the left. -/
def occurrencesFrom {α : Type} (p : Scanner α) (before : List Char) :
    (skip : Nat) → List Char → List (Occurrence α)
  | _, [] => []
  | skip + 1, c :: rest => occurrencesFrom p (c :: before) skip rest
  | 0, c :: rest =>
    match p (c :: rest) with
    | some (value, after) =>
      ⟨before, value, after⟩ :: occurrencesFrom p (c :: before) (rest.length - after.length) rest
    | none => occurrencesFrom p (c :: before) 0 rest

/-- The places where a scanner succeeds, without overlaps, from left to right. -/
def occurrences {α : Type} (p : Scanner α) (text : List Char) : List (Occurrence α) :=
  occurrencesFrom p [] 0 text

/-- The text past the next `skip` characters without what the scanner reads. -/
def eraseFrom (p : Scanner Unit) : (skip : Nat) → List Char → List Char
  | _, [] => []
  | skip + 1, _ :: rest => eraseFrom p skip rest
  | 0, c :: rest =>
    match p (c :: rest) with
    | some ((), after) => eraseFrom p (rest.length - after.length) rest
    | none => c :: eraseFrom p 0 rest

/-- The text without the places where a scanner succeeds. -/
def erase (p : Scanner Unit) (text : List Char) : List Char := eraseFrom p 0 text

/-- The parts of a text around the first place where `needle` stands. -/
def cutAt? (needle : List Char) : List Char → Option (List Char × List Char)
  | [] => if needle.isEmpty then some ([], []) else none
  | c :: rest =>
    match needle.isPrefixOf? (c :: rest) with
    | some after => some ([], after)
    | none => (cutAt? needle rest).map fun (left, right) => (c :: left, right)

/-- Whether `needle` stands somewhere in the text. -/
def contains (needle text : List Char) : Bool := (cutAt? needle text).isSome

/-- The text with every `old` replaced by `new`. -/
def replaceChar (old new : Char) (text : List Char) : List Char :=
  text.map fun c => if c = old then new else c

/-- Nothing occurs in the empty text. -/
@[simp] theorem occurrencesFrom_nil {α : Type} (p : Scanner α) (before : List Char) (skip : Nat) :
    occurrencesFrom p before skip [] = [] := by
  cases skip <;> rfl

/-- Nothing is left of the empty text. -/
@[simp] theorem eraseFrom_nil (p : Scanner Unit) (skip : Nat) : eraseFrom p skip [] = [] := by
  cases skip <;> rfl

end ChangeImpact.Text
