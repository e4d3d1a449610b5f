import ChangeImpact.Number.Binary64
import ChangeImpact.Text.Scan

/-!
# Numerals

The text of binary floating-point numbers: the shortest digits that read back, digits to a fixed
number of places, and digits to a fixed number of significant places. How digits are laid out (where
the point goes, when an exponent is written and how) is a record, one for each format that needs it.
-/

namespace ChangeImpact.Number

open Text

/-- Decimal digits `0.d₁d₂… * 10 ^ point`, where the first digit is not zero. -/
structure Digits where
  digits : List Char
  point : Int
  deriving DecidableEq, Repr

/-- Whether `10 ^ k ≤ q`. -/
def tenPowLe (k : Int) (q : Rat) : Bool :=
  if 0 ≤ k then (pow10 k.toNat : Rat) ≤ q else 1 ≤ q * (pow10 (-k).toNat : Rat)

/-- The power of ten `10 ^ k`. -/
def tenPow (k : Int) : Rat :=
  if 0 ≤ k then (pow10 k.toNat : Rat) else mkRat 1 (pow10 (-k).toNat)

/-- The `k` with `10 ^ (k - 1) ≤ q < 10 ^ k`, for a positive `q`. -/
def decimalPoint (q : Rat) : Int :=
  let guess : Int :=
    ((Nat.toDigits 10 q.num.natAbs).length : Int) - (Nat.toDigits 10 q.den).length
  if tenPowLe guess q then guess + 1 else guess

/-- The decimal digits of a number, without the zeros at their end. -/
def significant (n : Nat) : List Char :=
  ((Nat.toDigits 10 n).reverse.dropWhile (· == '0')).reverse

/-- Of the two neighbours of `q` among the decimals of `count` digits, the nearer one that rounds to
`q`, if there is any; a tie goes to the even one. -/
def neighbour? (q : Rat) (point : Int) (count : Nat) : Option Nat :=
  let scale := tenPow (count - point)
  let below := (q * scale).floor.toNat
  let readsBack (n : Nat) : Bool := round53 (n / scale) == q
  let gapBelow := q * scale - below
  match readsBack below, readsBack (below + 1) with
  | true, true =>
    if 2 * gapBelow < 1 || (2 * gapBelow == 1 && below % 2 == 0) then some below
    else some (below + 1)
  | true, false => some below
  | false, true => some (below + 1)
  | false, false => none

/-- The shortest digits that read back as the positive number `q`: the least count of at most
seventeen digits for which a neighbour of `q` does. -/
def shortest (q : Rat) : Digits :=
  let point := decimalPoint q
  let counts := (List.range 17).map (· + 1)
  match counts.findSome? fun count => (neighbour? q point count).map fun n => (n, count) with
  | some (n, count) =>
    ⟨significant n, point + ((Nat.toDigits 10 n).length - count : Int)⟩
  | none => ⟨[], 0⟩

/-- How shortest digits are laid out. -/
structure Layout where
  /-- The least point position that is written without an exponent. -/
  leastPoint : Int
  /-- The greatest point position that is written without an exponent. -/
  greatestPoint : Int
  /-- Whether an exponent that is not negative gets a plus sign. -/
  plusSign : Bool
  /-- The least number of digits of an exponent. -/
  exponentDigits : Nat

/-- An exponent outside of `1e-4 … 1e16`, with a sign and two digits at least. -/
def Layout.full : Layout := ⟨-3, 16, true, 2⟩

/-- An exponent outside of `1e-5 … 1e16`, as short as can be. -/
def Layout.brief : Layout := ⟨-4, 16, false, 1⟩

/-- The digits of a number with zeros in front up to a given count. -/
def padded (count n : Nat) : List Char :=
  let digits := Nat.toDigits 10 n
  List.replicate (count - digits.length) '0' ++ digits

/-- An exponent with its mark. -/
def exponentText (plusSign : Bool) (least : Nat) (exponent : Int) : List Char :=
  'e' :: (if exponent < 0 then ['-'] else if plusSign then ['+'] else []) ++
    padded least exponent.natAbs

/-- The digits written with a point, or with an exponent where the layout says so. -/
def Layout.write (layout : Layout) (d : Digits) : List Char :=
  let count : Int := d.digits.length
  if layout.leastPoint ≤ d.point && d.point ≤ layout.greatestPoint then
    if d.point ≤ 0 then '0' :: '.' :: List.replicate (-d.point).toNat '0' ++ d.digits
    else if count ≤ d.point then
      d.digits ++ List.replicate (d.point - count).toNat '0' ++ ['.', '0']
    else d.digits.take d.point.toNat ++ '.' :: d.digits.drop d.point.toNat
  else
    d.digits.take 1 ++ (if 1 < count then '.' :: d.digits.drop 1 else []) ++
      exponentText layout.plusSign layout.exponentDigits (d.point - 1)

/-- A finite number in its shortest form. -/
def Layout.text (layout : Layout) (x : Binary64) : List Char :=
  (if x.isNegative then ['-'] else []) ++
    if x.value = 0 then ['0', '.', '0']
    else layout.write (shortest (if x.value < 0 then -x.value else x.value))

/-- The magnitude of `x * 10 ^ places`, rounded to an integer, a tie going to the even one. -/
def scaledMagnitude (x : Rat) (places : Nat) : Nat :=
  roundQuotient (x.num.natAbs * pow10 places) x.den

/-- An integer count of `10 ^ -places`, written with that many places. -/
def placesText (places n : Nat) : List Char :=
  let digits := padded (places + 1) n
  let whole := digits.length - places
  digits.take whole ++ (if places = 0 then [] else '.' :: digits.drop whole)

/-- A number rounded to a fixed number of places; its sign is kept even if it rounds to zero. -/
def fixed (places : Nat) (x : Binary64) : String :=
  String.ofList ((if x.isNegative then ['-'] else []) ++
    placesText places (scaledMagnitude x.value places))

/-- A share written as a whole percentage. -/
def percentage (x : Binary64) : String := fixed 0 (x.mul 100) ++ "%"

/-- The text without the zeros, and then the point, at its end. -/
def trimZeros (text : List Char) : List Char :=
  if text.contains '.' then
    match text.reverse.dropWhile (· == '0') with
    | '.' :: rest => rest.reverse
    | rest => rest.reverse
  else text

/-- A number to six significant digits, without zeros at the end, and with an exponent outside of
`1e-4 … 1e6`. -/
def sixDigits (x : Binary64) : String :=
  let magnitude := if x.value < 0 then -x.value else x.value
  let sign := if x.isNegative then ['-'] else []
  if magnitude = 0 then String.ofList (sign ++ ['0'])
  else
    let point := decimalPoint magnitude
    let scaled := magnitude * tenPow (6 - point)
    let rounded := roundQuotient scaled.num.natAbs scaled.den
    let (rounded, exponent) := if rounded = pow10 6 then (pow10 5, point) else (rounded, point - 1)
    if -4 ≤ exponent && exponent < 6 then
      String.ofList (sign ++ trimZeros (placesText (5 - exponent).toNat rounded))
    else
      String.ofList (sign ++ trimZeros (placesText 5 rounded) ++ exponentText true 2 exponent)

/-- A threshold as messages show it. -/
def thresholdText : Extended → String
  | .finite x => sixDigits x
  | .infinite negative => if negative then "-inf" else "inf"
  | .nan => "nan"

end ChangeImpact.Number
