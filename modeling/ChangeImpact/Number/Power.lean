/-!
# Powers and totals

Powers of two and of ten, and the total of a list of counts, as plain functions on natural numbers.
-/

namespace ChangeImpact.Number

/-- Two to the power of `k`. -/
def pow2 (k : Nat) : Nat := Nat.pow 2 k

/-- Ten to the power of `k`. -/
def pow10 (k : Nat) : Nat := Nat.pow 10 k

/-- The total of some counts. -/
def total (counts : List Nat) : Nat := counts.foldr (fun count rest => count + rest) 0

@[simp] theorem pow2_zero : pow2 0 = 1 := rfl

@[simp] theorem pow10_zero : pow10 0 = 1 := rfl

@[simp] theorem total_nil : total [] = 0 := rfl

/-- The total of some counts is that of the first and the others. -/
@[simp] theorem total_cons (count : Nat) (rest : List Nat) :
    total (count :: rest) = count + total rest := rfl

end ChangeImpact.Number
