import ChangeImpact.Number.Binary64
import ChangeImpact.Text.Digit

/-!
# Reading numerals

The forms in which users write numbers: a sign, digits with an optional fraction and exponent, or a
name for infinity or for no number. Single underscores may stand between digits.
-/

namespace ChangeImpact.Number

open Text

/-- ASCII digits. -/
def isDigitChar (c : Char) : Bool := '0' ≤ c && c ≤ '9'

/-- The text without single underscores between digits; `none` if an underscore stands elsewhere. -/
def dropUnderscores? : List Char → Option (List Char)
  | [] => some []
  | ['_'] => none
  | [c] => some [c]
  | c :: '_' :: d :: rest =>
    if isDigitChar c && isDigitChar d then (dropUnderscores? (d :: rest)).map (c :: ·) else none
  | c :: rest => if c = '_' then none else (dropUnderscores? rest).map (c :: ·)

/-- The number written by ASCII digits. -/
def digitsValue (digits : List Char) : Nat :=
  ofDigitValues (digits.map fun c => c.toNat - '0'.toNat)

/-- The exponent at the end of a numeral: nothing, or a mark, a sign and digits. -/
def exponentValue? : List Char → Option Int
  | [] => some 0
  | e :: rest =>
    if e = 'e' || e = 'E' then
      let (negative, digits) := match rest with
        | '-' :: more => (true, more)
        | '+' :: more => (false, more)
        | _ => (false, rest)
      if !digits.isEmpty && digits.all isDigitChar then
        some (if negative then -(digitsValue digits : Int) else digitsValue digits)
      else none
    else none

/-- A numeral without a sign; ASCII case does not matter. -/
def unsigned? (negative : Bool) (text : List Char) : Option Extended :=
  let name := text.map Char.toLower
  if name = "inf".toList || name = "infinity".toList then some (.infinite negative)
  else if name = "nan".toList then some .nan
  else
    let whole := text.takeWhile isDigitChar
    let rest := text.dropWhile isDigitChar
    let (places, rest) := match rest with
      | '.' :: more => (more.takeWhile isDigitChar, more.dropWhile isDigitChar)
      | _ => ([], rest)
    if whole.isEmpty && places.isEmpty then none
    else (exponentValue? rest).map fun exponent =>
      .ofDecimal negative (digitsValue (whole ++ places)) (exponent - (places.length : Int))

/-- The number that a trimmed ASCII text writes. -/
def numeral? (text : List Char) : Option Extended := do
  match ← dropUnderscores? text with
  | '-' :: rest => unsigned? true rest
  | '+' :: rest => unsigned? false rest
  | rest => unsigned? false rest

/-- The number that a text writes with digits of any script and padding around it. -/
def real? (text : List Char) : Option Extended :=
  numeral? ((trimPadding text).map fun c =>
    match decimalValue? c with
    | some d => Char.ofNat ('0'.toNat + d)
    | none => c)

end ChangeImpact.Number
