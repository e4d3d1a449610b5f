import ChangeImpact.Number.Binary64
import Mathlib.Algebra.Order.Field.Power
import Mathlib.Data.Rat.Floor
import Mathlib.Tactic.Linarith
import Mathlib.Tactic.FieldSimp

/-!
# Rounding keeps bounds and order

A number is rounded on a grid of 53 significant bits. A bound of at most 53 bits lies on that grid,
or is a bound of the leading bit already, so that a number on one side of it is not rounded to the
other. In particular, a number of at most 53 bits is rounded to itself. Numbers on one grid are
rounded in their order, and between numbers on different grids there is a power of two. Rounding
moves a number by half a step of its grid at most.
-/

namespace ChangeImpact

namespace Number

/-- A power of two as a rational number. -/
theorem cast_pow2 (k : ℕ) : ((pow2 k : ℕ) : ℚ) = 2 ^ k := by
  rw [pow2, Nat.pow_eq, Nat.cast_pow, Nat.cast_two]

/-- Powers of two are positive. -/
theorem pow2_pos (k : ℕ) : 0 < pow2 k := Nat.two_pow_pos k

/-- An integral power of two, from the power of the exponent or of its opposite. -/
theorem zpow_of_nonneg {k : ℤ} (hk : 0 ≤ k) : (2 : ℚ) ^ k = pow2 k.toNat := by
  rw [cast_pow2, ← zpow_natCast, Int.toNat_of_nonneg hk]

/-- A power with a negative exponent is an inverse. -/
theorem zpow_of_neg {k : ℤ} (hk : ¬0 ≤ k) : (2 : ℚ) ^ k = (pow2 (-k).toNat : ℚ)⁻¹ := by
  rw [cast_pow2, ← zpow_natCast, Int.toNat_of_nonneg (by omega), zpow_neg, inv_inv]

/-- What a mantissa and an exponent stand for. -/
theorem dyadic_eq (mantissa exponent : ℤ) : dyadic mantissa exponent = mantissa * 2 ^ exponent := by
  unfold dyadic
  split
  case isTrue h => rw [zpow_of_nonneg h, Int.cast_mul, Int.cast_natCast]
  case isFalse h =>
    rw [zpow_of_neg h, Rat.mkRat_eq_div, div_eq_mul_inv]

/-- The comparison with a power of two. -/
theorem powLe_iff {k : ℤ} {num den : ℕ} (hden : 0 < den) :
    powLe k num den = true ↔ (2 : ℚ) ^ k ≤ num / den := by
  have hden' : (0 : ℚ) < den := Nat.cast_pos.mpr hden
  unfold powLe
  rw [le_div_iff₀ hden']
  split
  case isTrue h => rw [zpow_of_nonneg h, decide_eq_true_iff, ← Nat.cast_mul, Nat.cast_le]
  case isFalse h =>
    have hpow : (0 : ℚ) < pow2 (-k).toNat := Nat.cast_pos.mpr (pow2_pos _)
    rw [zpow_of_neg h, decide_eq_true_iff, inv_mul_le_iff₀ hpow, ← Nat.cast_mul, Nat.cast_le,
      Nat.mul_comm]

/-- A quotient is at least the power of two whose exponent is computed for it. -/
theorem zpow_floorLog2_le {num den : ℕ} (hnum : 0 < num) (hden : 0 < den) :
    (2 : ℚ) ^ floorLog2 num den ≤ num / den := by
  unfold floorLog2
  dsimp only
  split
  case isTrue h => exact (powLe_iff hden).mp h
  case isFalse h =>
    have hlower : (2 : ℚ) ^ num.log2 ≤ num := by
      exact_mod_cast Nat.log2_self_le (Nat.ne_of_gt hnum)
    have hupper : (den : ℚ) ≤ 2 ^ (den.log2 + 1) := by
      exact_mod_cast (Nat.lt_log2_self (n := den)).le
    have hden' : (0 : ℚ) < den := Nat.cast_pos.mpr hden
    have hexponent : (2 : ℚ) ^ ((num.log2 : ℤ) - den.log2 - 1) * 2 ^ (den.log2 + 1) =
        2 ^ num.log2 := by
      rw [← zpow_natCast, ← zpow_natCast, ← zpow_add₀ two_ne_zero]
      congr 1
      push_cast
      ring
    rw [le_div_iff₀ hden']
    calc (2 : ℚ) ^ ((num.log2 : ℤ) - den.log2 - 1) * den
        ≤ 2 ^ ((num.log2 : ℤ) - den.log2 - 1) * 2 ^ (den.log2 + 1) := by gcongr
      _ = 2 ^ num.log2 := hexponent
      _ ≤ num := hlower

/-- A quotient is less than the next power of two. -/
theorem lt_zpow_floorLog2 (num : ℕ) {den : ℕ} (hden : 0 < den) :
    (num : ℚ) / den < 2 ^ (floorLog2 num den + 1) := by
  unfold floorLog2
  dsimp only
  split
  case isTrue h =>
    have hupper : (num : ℚ) < 2 ^ (num.log2 + 1) := by
      exact_mod_cast Nat.lt_log2_self (n := num)
    have hlower : (2 : ℚ) ^ den.log2 ≤ den := by
      exact_mod_cast Nat.log2_self_le (Nat.ne_of_gt hden)
    have hexponent : (2 : ℚ) ^ ((num.log2 : ℤ) - den.log2 + 1) * 2 ^ den.log2 =
        2 ^ (num.log2 + 1) := by
      rw [← zpow_natCast, ← zpow_natCast, ← zpow_add₀ two_ne_zero]
      congr 1
      push_cast
      ring
    rw [div_lt_iff₀ (Nat.cast_pos.mpr hden)]
    calc (num : ℚ) < 2 ^ (num.log2 + 1) := hupper
      _ = 2 ^ ((num.log2 : ℤ) - den.log2 + 1) * 2 ^ den.log2 := hexponent.symm
      _ ≤ 2 ^ ((num.log2 : ℤ) - den.log2 + 1) * den := by gcongr
  case isFalse h =>
    rw [powLe_iff hden, not_le] at h
    rwa [sub_add_cancel]

/-- A quotient that is at most some integer is rounded to at most that integer. -/
theorem roundQuotient_le {num den bound : ℕ} (hden : 0 < den) (hbound : num ≤ bound * den) :
    roundQuotient num den ≤ bound := by
  have hquotient : num / den ≤ bound := (Nat.div_le_iff_le_mul_add_pred hden).mpr (by
    rw [Nat.mul_comm]; omega)
  have hdivision := Nat.div_add_mod num den
  unfold roundQuotient
  by_cases hequal : num / den = bound
  · have hremainder : num % den = 0 := by
      rw [hequal, Nat.mul_comm] at hdivision
      omega
    simp only [hremainder, Nat.mul_zero, hden, if_true]
    exact hquotient
  · have hless : num / den + 1 ≤ bound := by omega
    dsimp only
    split_ifs <;> omega

/-- A quotient that is at least some integer is rounded to at least that integer. -/
theorem le_roundQuotient {num den bound : ℕ} (hden : 0 < den) (hbound : bound * den ≤ num) :
    bound ≤ roundQuotient num den := by
  have hquotient : bound ≤ num / den := (Nat.le_div_iff_mul_le hden).mpr hbound
  unfold roundQuotient
  dsimp only
  split_ifs <;> omega

/-- A quotient that is no greater than another one is not rounded to a greater integer. -/
theorem roundQuotient_mono {num den num' den' : ℕ} (hden : 0 < den) (hden' : 0 < den')
    (hle : num * den' ≤ num' * den) : roundQuotient num den ≤ roundQuotient num' den' := by
  have hdivision := Nat.div_add_mod num den
  have hdivision' := Nat.div_add_mod num' den'
  have hquotient : num / den ≤ num' / den' := by
    rw [Nat.le_div_iff_mul_le hden']
    refine Nat.le_of_mul_le_mul_right ?_ hden
    calc num / den * den' * den = num / den * den * den' := by ring
      _ ≤ num * den' := Nat.mul_le_mul_right den' (Nat.div_mul_le_self num den)
      _ ≤ num' * den := hle
  unfold roundQuotient
  dsimp only
  obtain hless | hsame := hquotient.lt_or_eq
  · split_ifs <;> omega
  · -- with equal integral parts, the remainders are in the order of the quotients
    have hremainder : num % den * den' ≤ num' % den' * den := by
      rw [← hdivision, ← hdivision', ← hsame] at hle
      linarith
    have hhalf : ¬2 * (num % den) < den → ¬2 * (num' % den') < den' := by
      intro habove hbelow
      have hlower := Nat.mul_le_mul_right den' (not_lt.mp habove)
      have hupper := Nat.mul_lt_mul_of_pos_right hbelow hden
      linarith
    have hmore : den < 2 * (num % den) → den' < 2 * (num' % den') := by
      intro habove
      by_contra hbelow
      have hlower := Nat.mul_lt_mul_of_pos_right habove hden'
      have hupper := Nat.mul_le_mul_right den (not_lt.mp hbelow)
      linarith
    rw [← hsame]
    split_ifs <;> omega

/-- A scaled quotient is a quotient of integers. -/
theorem exists_roundScaled_eq (num : ℕ) {den : ℕ} (hden : 0 < den) (shift : ℤ) :
    ∃ num' den' : ℕ, 0 < den' ∧ roundScaled num den shift = roundQuotient num' den' ∧
      (num : ℚ) / den * 2 ^ shift = num' / den' := by
  unfold roundScaled
  split
  case isTrue h =>
    refine ⟨_, _, hden, rfl, ?_⟩
    rw [zpow_of_nonneg h, div_mul_eq_mul_div, Nat.cast_mul]
  case isFalse h =>
    refine ⟨_, _, Nat.mul_pos hden (pow2_pos _), rfl, ?_⟩
    rw [zpow_of_neg h, ← div_eq_mul_inv, div_div, Nat.cast_mul]

/-- A scaled quotient is rounded to at most an integer that it is at most. -/
theorem roundScaled_le {num den bound : ℕ} {shift : ℤ} (hden : 0 < den)
    (hbound : (num : ℚ) / den * 2 ^ shift ≤ bound) : roundScaled num den shift ≤ bound := by
  obtain ⟨num', den', hden', hrounded, hscaled⟩ := exists_roundScaled_eq num hden shift
  rw [hscaled, div_le_iff₀ (Nat.cast_pos.mpr hden')] at hbound
  rw [hrounded]
  exact roundQuotient_le hden' (by exact_mod_cast hbound)

/-- A scaled quotient is rounded to at least an integer that it is at least. -/
theorem le_roundScaled {num den bound : ℕ} {shift : ℤ} (hden : 0 < den)
    (hbound : (bound : ℚ) ≤ num / den * 2 ^ shift) : bound ≤ roundScaled num den shift := by
  obtain ⟨num', den', hden', hrounded, hscaled⟩ := exists_roundScaled_eq num hden shift
  rw [hscaled, le_div_iff₀ (Nat.cast_pos.mpr hden')] at hbound
  rw [hrounded]
  exact le_roundQuotient hden' (by exact_mod_cast hbound)

/-- A number of at most so many steps of a grid is rounded to no more of them. -/
theorem roundScaled_le_steps {num den steps : ℕ} {exponent : ℤ} {q : ℚ} (hden : 0 < den)
    (hquotient : (num : ℚ) / den = q) (hbound : q ≤ steps * 2 ^ exponent) :
    roundScaled num den (-exponent) ≤ steps := by
  refine roundScaled_le hden ?_
  rwa [hquotient, zpow_neg, ← div_eq_mul_inv, div_le_iff₀ (by positivity)]

/-- A number of at least so many steps of a grid is rounded to no fewer of them. -/
theorem steps_le_roundScaled {num den steps : ℕ} {exponent : ℤ} {q : ℚ} (hden : 0 < den)
    (hquotient : (num : ℚ) / den = q) (hbound : (steps : ℚ) * 2 ^ exponent ≤ q) :
    steps ≤ roundScaled num den (-exponent) := by
  refine le_roundScaled hden ?_
  rwa [hquotient, zpow_neg, ← div_eq_mul_inv, le_div_iff₀ (by positivity)]

/-- Scaled quotients are rounded in their order. -/
theorem roundScaled_mono {num den num' den' : ℕ} (hden : 0 < den) (hden' : 0 < den')
    (hle : (num : ℚ) / den ≤ num' / den') (shift : ℤ) :
    roundScaled num den shift ≤ roundScaled num' den' shift := by
  obtain ⟨first, whole, hwhole, hrounded, hscaled⟩ := exists_roundScaled_eq num hden shift
  obtain ⟨second, whole', hwhole', hrounded', hscaled'⟩ := exists_roundScaled_eq num' hden' shift
  have hquotients : (first : ℚ) / whole ≤ second / whole' := by
    rw [← hscaled, ← hscaled']
    gcongr
  rw [div_le_div_iff₀ (Nat.cast_pos.mpr hwhole) (Nat.cast_pos.mpr hwhole')] at hquotients
  rw [hrounded, hrounded']
  exact roundQuotient_mono hwhole hwhole' (by exact_mod_cast hquotients)

/-- A number that is not negative is rounded on the grid of some exponent, which is no finer than
that of the subnormal numbers, nor than the number needs, and on which it has at most 53 bits. -/
theorem exists_round53_eq {q : ℚ} (hq : 0 < q) :
    ∃ (exponent : ℤ) (num den : ℕ), 0 < den ∧ (num : ℚ) / den = q ∧
      round53 q = roundScaled num den (-exponent) * 2 ^ exponent ∧
      (exponent = -1074 ∨ -1074 < exponent ∧ (2 : ℚ) ^ (exponent + 52) ≤ q) ∧
      q < 2 ^ (exponent + 53) := by
  have hnum : 0 < q.num := Rat.num_pos.mpr hq
  have habs : 0 < q.num.natAbs := Int.natAbs_pos.mpr hnum.ne'
  have hquotient : (q.num.natAbs : ℚ) / q.den = q := by
    rw [Nat.cast_natAbs, abs_of_pos hnum, Rat.num_div_den]
  have hlead := zpow_floorLog2_le habs q.den_pos
  have hnext := lt_zpow_floorLog2 q.num.natAbs q.den_pos
  rw [hquotient] at hlead hnext
  refine ⟨lastBit (floorLog2 q.num.natAbs q.den), _, _, q.den_pos, hquotient, ?_, ?_, ?_⟩
  · rw [round53, if_neg hnum.ne']
    simp only [not_lt.mpr hnum.le, if_false]
    rw [dyadic_eq, Int.cast_natCast]
  · unfold lastBit
    by_cases hnormal : -1074 < floorLog2 q.num.natAbs q.den - 52
    · have hexponent : floorLog2 q.num.natAbs q.den - 52 + 52 = floorLog2 q.num.natAbs q.den := by
        omega
      rw [max_eq_left hnormal.le, hexponent]
      exact .inr ⟨hnormal, hlead⟩
    · exact .inl (max_eq_right (not_lt.mp hnormal))
  · refine hnext.trans_le (zpow_le_zpow_right₀ one_le_two ?_)
    unfold lastBit
    omega

/-- On a grid that is no coarser, a quotient by a power of two is a whole number of steps. -/
theorem exists_steps (n : ℕ) {k : ℕ} {exponent : ℤ} (hgrid : exponent ≤ -(k : ℤ)) :
    ∃ steps : ℕ, (n : ℚ) / 2 ^ k = steps * 2 ^ exponent := by
  obtain ⟨more, hmore⟩ := Int.eq_ofNat_of_zero_le (show 0 ≤ -(k : ℤ) - exponent by omega)
  have hk : -(k : ℤ) = more + exponent := by omega
  refine ⟨n * 2 ^ more, ?_⟩
  rw [div_eq_mul_inv, ← zpow_natCast, ← zpow_neg, hk, zpow_add₀ two_ne_zero, zpow_natCast]
  push_cast
  ring

/-- A number of at most 53 bits is less than the power of two with one bit more. -/
theorem quotient_lt_zpow {n : ℕ} (hn : n < 2 ^ 53) (k : ℕ) :
    (n : ℚ) / 2 ^ k < 2 ^ ((53 : ℤ) - k) := by
  have hcast : (n : ℚ) < 2 ^ (53 : ℤ) := by exact_mod_cast hn
  rw [zpow_sub₀ two_ne_zero, zpow_natCast]
  gcongr

/-- Zero is not rounded. -/
theorem round53_zero : round53 0 = 0 := by simp [round53]

/-- A number that is not negative is not rounded beyond a bound of at most 53 bits. -/
theorem round53_le {q : ℚ} {n k : ℕ} (hn : n < 2 ^ 53) (hk : k ≤ 1074) (hq : 0 ≤ q)
    (hbound : q ≤ n / 2 ^ k) : round53 q ≤ n / 2 ^ k := by
  obtain rfl | hpos := hq.eq_or_lt
  · rwa [round53_zero]
  obtain ⟨exponent, num, den, hden, hquotient, hround, hgrid, -⟩ := exists_round53_eq hpos
  -- the grid of the bound is no finer than the grid that the number is rounded on
  have hcoarse : exponent ≤ -(k : ℤ) := by
    obtain rfl | ⟨-, hlead⟩ := hgrid
    · omega
    · have hless := (hlead.trans hbound).trans_lt (quotient_lt_zpow hn k)
      have hexponent := (zpow_lt_zpow_iff_right₀ one_lt_two).mp hless
      omega
  obtain ⟨steps, hsteps⟩ := exists_steps n hcoarse
  have hrounded : roundScaled num den (-exponent) ≤ steps :=
    roundScaled_le_steps hden hquotient (hsteps ▸ hbound)
  rw [hround, hsteps]
  gcongr

/-- A number is not rounded below a bound of at most 53 bits. -/
theorem le_round53 {q : ℚ} {n k : ℕ} (hn : n < 2 ^ 53) (hk : k ≤ 1074)
    (hbound : (n : ℚ) / 2 ^ k ≤ q) : n / 2 ^ k ≤ round53 q := by
  have hq : 0 ≤ q := le_trans (by positivity) hbound
  obtain rfl | hpos := hq.eq_or_lt
  · rwa [round53_zero]
  obtain ⟨exponent, num, den, hden, hquotient, hround, hgrid, -⟩ := exists_round53_eq hpos
  have hle {steps : ℕ} (hsteps : (steps : ℚ) * 2 ^ exponent ≤ q) :
      (steps : ℚ) * 2 ^ exponent ≤ round53 q := by
    have hrounded := steps_le_roundScaled hden hquotient hsteps
    rw [hround]
    gcongr
  by_cases hcoarse : exponent ≤ -(k : ℤ)
  · obtain ⟨steps, hsteps⟩ := exists_steps n hcoarse
    rw [hsteps] at hbound ⊢
    exact hle hbound
  · -- on a coarser grid the leading bit of the number is already above the bound
    obtain rfl | ⟨-, hlead⟩ := hgrid
    · omega
    have hbit : (2 : ℚ) ^ (exponent + 52) = (2 ^ 52 : ℕ) * 2 ^ exponent := by
      rw [zpow_add₀ two_ne_zero, mul_comm]
      norm_num
    have habove : (n : ℚ) / 2 ^ k ≤ 2 ^ (exponent + 52) :=
      (quotient_lt_zpow hn k).le.trans (zpow_le_zpow_right₀ one_le_two (by omega))
    rw [hbit] at hlead habove
    exact habove.trans (hle hlead)

/-- A number that is not negative is not rounded to a negative one. -/
theorem round53_nonneg {q : ℚ} (hq : 0 ≤ q) : 0 ≤ round53 q := by
  have hzero := le_round53 (n := 0) (k := 0) (by decide) (by decide) (by simpa using hq)
  simpa using hzero

/-- Rounding keeps the order of numbers that are not negative. -/
theorem round53_mono {p q : ℚ} (hp : 0 ≤ p) (hle : p ≤ q) : round53 p ≤ round53 q := by
  obtain rfl | hpos := hp.eq_or_lt
  · rw [round53_zero]
    exact round53_nonneg hle
  obtain ⟨exponent, num, den, hden, hquotient, hround, hgrid, hbits⟩ := exists_round53_eq hpos
  obtain ⟨exponent', num', den', hden', hquotient', hround', hgrid', hbits'⟩ :=
    exists_round53_eq (hpos.trans_le hle)
  rw [hround, hround']
  -- the grid of the smaller number is no coarser, or its leading bit would be above the greater one
  have hcoarse : exponent ≤ exponent' := by
    obtain rfl | ⟨-, hlead⟩ := hgrid
    · omega
    · have hexponent :=
        (zpow_lt_zpow_iff_right₀ one_lt_two).mp ((hlead.trans hle).trans_lt hbits')
      omega
  obtain hfiner | rfl := hcoarse.lt_or_eq
  · -- on different grids a power of two lies between the rounded numbers
    have hlead' : (2 : ℚ) ^ (exponent' + 52) ≤ q := (hgrid'.resolve_left (by omega)).2
    have habove : roundScaled num den (-exponent) ≤ 2 ^ 53 := by
      refine roundScaled_le_steps hden hquotient ?_
      rw [zpow_add₀ two_ne_zero, mul_comm] at hbits
      exact_mod_cast hbits.le
    have hbelow : 2 ^ 52 ≤ roundScaled num' den' (-exponent') := by
      refine steps_le_roundScaled hden' hquotient' ?_
      rw [zpow_add₀ two_ne_zero, mul_comm] at hlead'
      exact_mod_cast hlead'
    calc (roundScaled num den (-exponent) : ℚ) * 2 ^ exponent
        ≤ (2 ^ 53 : ℕ) * 2 ^ exponent := by gcongr
      _ = (2 ^ 52 : ℕ) * 2 ^ (exponent + 1) := by
        rw [zpow_add₀ two_ne_zero]
        push_cast
        ring
      _ ≤ (2 ^ 52 : ℕ) * 2 ^ exponent' := by
        gcongr
        · exact one_le_two
        · omega
      _ ≤ roundScaled num' den' (-exponent') * 2 ^ exponent' := by gcongr
  · have hsteps : roundScaled num den (-exponent) ≤ roundScaled num' den' (-exponent) :=
      roundScaled_mono hden hden' (by rwa [hquotient, hquotient']) _
    gcongr

/-- A number of at most 53 bits is rounded to itself. -/
theorem round53_eq_self {n k : ℕ} (hn : n < 2 ^ 53) (hk : k ≤ 1074) :
    round53 ((n : ℚ) / 2 ^ k) = n / 2 ^ k :=
  le_antisymm (round53_le hn hk (by positivity) le_rfl) (le_round53 hn hk le_rfl)

/-- A quotient is rounded to an integer that is at most a half away. -/
theorem abs_roundQuotient_sub_le (num : ℕ) {den : ℕ} (hden : 0 < den) :
    |(roundQuotient num den : ℚ) - num / den| ≤ 1 / 2 := by
  have hden' : (0 : ℚ) < den := Nat.cast_pos.mpr hden
  have hquotient : (num : ℚ) / den = (num / den : ℕ) + (num % den : ℕ) / den := by
    rw [div_eq_iff hden'.ne', add_mul, div_mul_cancel₀ _ hden'.ne', mul_comm]
    exact_mod_cast (Nat.div_add_mod num den).symm
  have hcases : roundQuotient num den = num / den ∧ 2 * (num % den) ≤ den ∨
      roundQuotient num den = num / den + 1 ∧ den ≤ 2 * (num % den) ∧ num % den ≤ den := by
    have hremainder := Nat.mod_lt num hden
    unfold roundQuotient
    dsimp only
    split_ifs <;> omega
  rw [hquotient, abs_le]
  obtain ⟨hrounded, hhalf⟩ | ⟨hrounded, hhalf, hless⟩ := hcases
  · have hrest : ((num % den : ℕ) : ℚ) / den ≤ 1 / 2 := by
      rw [div_le_div_iff₀ hden' two_pos]
      exact_mod_cast (by omega : num % den * 2 ≤ 1 * den)
    have hnonneg : (0 : ℚ) ≤ (num % den : ℕ) / den := by positivity
    rw [hrounded]
    constructor <;> linarith
  · have hrest : 1 / 2 ≤ ((num % den : ℕ) : ℚ) / den := by
      rw [div_le_div_iff₀ two_pos hden']
      exact_mod_cast (by omega : 1 * den ≤ num % den * 2)
    have hone : ((num % den : ℕ) : ℚ) / den ≤ 1 :=
      div_le_one_of_le₀ (Nat.cast_le.mpr hless) hden'.le
    rw [hrounded, Nat.cast_succ]
    constructor <;> linarith

/-- A number below a power of two is moved by at most half the last of the 53 bits below that
power. -/
theorem abs_round53_sub_le {q : ℚ} {k : ℤ} (hk : -1021 ≤ k) (hq : 0 ≤ q) (hless : q < 2 ^ k) :
    |round53 q - q| ≤ 2 ^ (k - 54) := by
  obtain rfl | hpos := hq.eq_or_lt
  · rw [round53_zero, sub_self, abs_zero]
    positivity
  obtain ⟨exponent, num, den, hden, hquotient, hround, hgrid, -⟩ := exists_round53_eq hpos
  have hcoarse : exponent ≤ k - 53 := by
    obtain rfl | ⟨-, hlead⟩ := hgrid
    · omega
    · have hexponent := (zpow_lt_zpow_iff_right₀ one_lt_two).mp (hlead.trans_lt hless)
      omega
  obtain ⟨num', den', hden', hrounded, hscaled⟩ := exists_roundScaled_eq num hden (-exponent)
  have hmoved : round53 q - q = (roundQuotient num' den' - num' / den') * 2 ^ exponent := by
    rw [hround, hrounded, ← hscaled, hquotient, sub_mul, mul_assoc, ← zpow_add₀ two_ne_zero,
      neg_add_cancel, zpow_zero, mul_one]
  rw [hmoved, abs_mul, abs_of_pos (show (0 : ℚ) < 2 ^ exponent from zpow_pos two_pos exponent)]
  calc |(roundQuotient num' den' : ℚ) - num' / den'| * 2 ^ exponent
      ≤ 1 / 2 * 2 ^ exponent := by
        gcongr
        exact abs_roundQuotient_sub_le num' hden'
    _ ≤ 1 / 2 * 2 ^ (k - 53) := by
        gcongr
        exact one_le_two
    _ = 2 ^ (k - 54) := by
        rw [show k - 53 = k - 54 + 1 by omega, zpow_add_one₀ two_ne_zero]
        ring

/-- A quotient halfway below an even integer is rounded up to it. -/
theorem le_roundQuotient_of_even {num den bound : ℕ} (hden : 0 < den) (heven : bound % 2 = 0)
    (hbound : 2 * (bound * den) ≤ 2 * num + den) : bound ≤ roundQuotient num den := by
  have hdivision := Nat.div_add_mod' num den
  have hremainder := Nat.mod_lt num hden
  by_cases hquotient : bound ≤ num / den
  · unfold roundQuotient
    dsimp only
    split_ifs <;> omega
  -- the integral part is one below the even integer, and the rest is at least a half
  have hnext : bound = num / den + 1 := by
    have hless : bound * den < (num / den + 2) * den := by
      rw [add_mul]
      omega
    have := Nat.lt_of_mul_lt_mul_right hless
    omega
  rw [hnext, add_mul] at hbound
  unfold roundQuotient
  dsimp only
  split_ifs <;> omega

/-- A number that is next to a number of 53 bits of which the last is not set, is not rounded below
that one. -/
theorem le_round53_of_even {q : ℚ} {n k : ℕ} (hn : n < 2 ^ 53) (heven : n % 2 = 0) (hk : k < 1074)
    (hlead : (2 : ℚ) ^ 52 / 2 ^ k ≤ q) (hnear : (n : ℚ) / 2 ^ k - 1 / 2 / 2 ^ k ≤ q) :
    (n : ℚ) / 2 ^ k ≤ round53 q := by
  obtain hbound | hbelow := le_or_gt ((n : ℚ) / 2 ^ k) q
  · exact le_round53 hn hk.le hbound
  have hpos : 0 < q := lt_of_lt_of_le (by positivity) hlead
  obtain ⟨exponent, num, den, hden, hquotient, hround, hgrid, hbits⟩ := exists_round53_eq hpos
  -- both numbers are on the grid that the greater one is given on
  have hexponent : exponent = -(k : ℤ) := by
    have hbit : (2 : ℚ) ^ 52 / 2 ^ k = 2 ^ ((52 : ℤ) - k) := by
      rw [zpow_sub₀ two_ne_zero, zpow_natCast, zpow_ofNat]
    rw [hbit] at hlead
    have hfine := (zpow_lt_zpow_iff_right₀ one_lt_two).mp (hlead.trans_lt hbits)
    obtain rfl | ⟨-, hcoarse⟩ := hgrid
    · omega
    have hless := (hcoarse.trans_lt hbelow).trans (quotient_lt_zpow hn k)
    have hcoarse' := (zpow_lt_zpow_iff_right₀ one_lt_two).mp hless
    omega
  have hrounded : n ≤ roundScaled num den (-exponent) := by
    obtain ⟨num', den', hden', hrounded, hscaled⟩ := exists_roundScaled_eq num hden (-exponent)
    rw [hrounded]
    refine le_roundQuotient_of_even hden' heven ?_
    have hden'' : (0 : ℚ) < den' := Nat.cast_pos.mpr hden'
    rw [hquotient, hexponent, neg_neg, zpow_natCast, eq_div_iff hden''.ne'] at hscaled
    rw [← sub_div, div_le_iff₀ (by positivity)] at hnear
    have hmore := mul_le_mul_of_nonneg_right hnear hden''.le
    rw [hscaled, sub_mul] at hmore
    have htwice : 2 * ((n : ℚ) * den') ≤ 2 * num' + den' := by linarith
    exact_mod_cast htwice
  rw [hround, hexponent, zpow_neg, zpow_natCast, ← div_eq_mul_inv, ← hexponent]
  gcongr

end Number

end ChangeImpact
