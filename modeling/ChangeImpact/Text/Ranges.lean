/-!
# Tables of character ranges

A character class that follows a published table is kept as one sorted list of code points: a
range's first member, then the code point after its last, and so on. This file holds the look-up.
-/

namespace ChangeImpact.Text

/-- Whether `n` lies in one of the half-open ranges that `bounds` lists in pairs. -/
def inRanges : List Nat → Nat → Bool
  | low :: limit :: rest, n =>
    if n < low then false else if n < limit then true else inRanges rest n
  | _, _ => false

@[simp] theorem inRanges_nil (n : Nat) : inRanges [] n = false := rfl

/-- A number is in the first range, below all ranges, or looked for in the others. -/
theorem inRanges_pair (low limit : Nat) (rest : List Nat) (n : Nat) :
    inRanges (low :: limit :: rest) n =
      if n < low then false else if n < limit then true else inRanges rest n := rfl

end ChangeImpact.Text
