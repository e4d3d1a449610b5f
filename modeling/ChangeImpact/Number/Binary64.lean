import ChangeImpact.Number.Power

/-!
# Binary floating-point numbers

Numbers of 53 significant bits are kept as the rational numbers that they are, so that arithmetic on
them is exact arithmetic followed by one rounding to the nearest such number, a tie going to the
even one. A zero remembers its sign.
-/

namespace ChangeImpact

namespace Number

/-- The quotient rounded to the nearest integer, a tie going to the even one. -/
def roundQuotient (num den : Nat) : Nat :=
  let quotient := num / den
  let remainder := num % den
  if 2 * remainder < den then quotient
  else if den < 2 * remainder then quotient + 1
  else if quotient % 2 = 0 then quotient else quotient + 1

/-- The integer `num * 2 ^ shift / den` rounded to the nearest, a tie going to the even one. -/
def roundScaled (num den : Nat) (shift : Int) : Nat :=
  if 0 ≤ shift then roundQuotient (num * pow2 shift.toNat) den
  else roundQuotient num (den * pow2 (-shift).toNat)

/-- The rational number `mantissa * 2 ^ exponent`. -/
def dyadic (mantissa : Int) (exponent : Int) : Rat :=
  if 0 ≤ exponent then ((mantissa * (pow2 exponent.toNat : Int) : Int) : Rat)
  else mkRat mantissa (pow2 (-exponent).toNat)

/-- Whether `2 ^ k ≤ num / den`. -/
def powLe (k : Int) (num den : Nat) : Bool :=
  if 0 ≤ k then pow2 k.toNat * den ≤ num else den ≤ num * pow2 (-k).toNat

/-- The greatest `k` with `2 ^ k ≤ num / den`, for positive `num` and `den`. -/
def floorLog2 (num den : Nat) : Int :=
  let guess : Int := (num.log2 : Int) - (den.log2 : Int)
  if powLe guess num den then guess else guess - 1

/-- The exponent of the last bit of a rounded number whose leading bit has exponent `lead`. -/
def lastBit (lead : Int) : Int := max (lead - 52) (-1074)

/-- The nearest number of 53 significant bits, a tie going to the even one. -/
def round53 (q : Rat) : Rat :=
  if q.num = 0 then 0
  else
    let exponent := lastBit (floorLog2 q.num.natAbs q.den)
    let mantissa := roundScaled q.num.natAbs q.den (-exponent)
    dyadic (if q.num < 0 then -(mantissa : Int) else mantissa) exponent

end Number

open Number

/-- A finite number of 53 significant bits. -/
structure Binary64 where
  /-- The number itself. -/
  value : Rat
  /-- Set for the zero with a minus sign. -/
  negativeZero : Bool := false
  deriving DecidableEq

namespace Binary64

/-- The number nearest to a rational one. -/
def ofRat (q : Rat) : Binary64 := ⟨round53 q, false⟩

instance (n : Nat) : OfNat Binary64 n := ⟨ofRat n⟩

instance : Inhabited Binary64 := ⟨0⟩

/-- Whether the number is written with a minus sign. -/
def isNegative (x : Binary64) : Bool := x.value < 0 || x.negativeZero

/-- The rounded sum. -/
def add (x y : Binary64) : Binary64 := ofRat (x.value + y.value)

/-- The rounded difference. -/
def sub (x y : Binary64) : Binary64 := ofRat (x.value - y.value)

/-- The rounded product; a zero product is negative if one factor is. -/
def mul (x y : Binary64) : Binary64 :=
  let product := round53 (x.value * y.value)
  ⟨product, product == 0 && x.isNegative != y.isNegative⟩

/-- The rounded quotient. -/
def div (x y : Binary64) : Binary64 := ofRat (x.value / y.value)

/-- The sum of all numbers, rounded once. -/
def sum (xs : List Binary64) : Binary64 := ofRat (xs.foldr (fun x total => x.value + total) 0)

/-- The greatest integer that is not above the number. -/
def floor (x : Binary64) : Int := x.value.floor

/-- The first number too large to be finite: any rational at least this large rounds to infinity. -/
def overflow : Rat := dyadic ((pow2 54 - 1 : Nat) : Int) 970

end Binary64

/-- What a numeral can stand for: a finite number, an infinity, or no number at all. -/
inductive Extended
  | finite (x : Binary64)
  | infinite (negative : Bool)
  | nan
  deriving DecidableEq

namespace Extended

/-- The number nearest to `± digits * 10 ^ exponent`. Exponents far outside the range are decided by
the number of digits alone. -/
def ofDecimal (negative : Bool) (digits : Nat) (exponent : Int) : Extended :=
  let length : Int := (Nat.toDigits 10 digits).length
  if digits = 0 || length + exponent < -330 then .finite ⟨0, negative⟩
  else if 330 < length + exponent then .infinite negative
  else
    let magnitude : Rat :=
      if 0 ≤ exponent then ((digits * pow10 exponent.toNat : Nat) : Rat)
      else mkRat digits (pow10 (-exponent).toNat)
    if Binary64.overflow ≤ magnitude then .infinite negative
    else
      let rounded := round53 magnitude
      .finite ⟨if negative then -rounded else rounded, negative && rounded == 0⟩

/-- Whether an integer is at least this number. -/
def leInt (x : Extended) (n : Int) : Bool :=
  match x with
  | .finite x => x.value ≤ n
  | .infinite negative => negative
  | .nan => false

end Extended

end ChangeImpact
