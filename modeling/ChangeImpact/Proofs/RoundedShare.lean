import ChangeImpact.Proofs.CoverageGaps
import ChangeImpact.Proofs.RiskGrowth

/-!
# Scores at a half

The share of covered files is rounded, and so are its complement, the percentage, the product with
the weight and the sum. Together these move the weighted mean by less than `1 / 2 ^ 44`, so that a
mean that is not a half is rounded to the nearest integer. A mean that is a half goes up, except for
three shares of covered files, with which a small mean goes down.
-/

namespace ChangeImpact

open Binary64 Number

/-! ### Integers next to a number -/

/-- A multiple of a fraction that is no integer is at least that fraction away from the integers
around it. -/
theorem apart_of_mul_eq {x : ℚ} {n : ℕ} {z : ℤ} (hn : 0 < n) (hmultiple : x * n = z)
    (hbetween : ∀ k : ℤ, x ≠ k) : ⌊x⌋ + 1 / (n : ℚ) ≤ x ∧ x + 1 / (n : ℚ) ≤ ⌊x⌋ + 1 := by
  have hn' : (0 : ℚ) < n := Nat.cast_pos.mpr hn
  have hlow : (⌊x⌋ : ℚ) * n < x * n := by
    gcongr
    exact lt_of_le_of_ne (Int.floor_le x) (hbetween _).symm
  have hhigh : x * n < (⌊x⌋ + 1) * n := by
    gcongr
    exact Int.lt_floor_add_one x
  rw [hmultiple] at hlow hhigh
  -- the multiples are integers, so that they differ by at least one
  have hlow' : (⌊x⌋ : ℚ) * n + 1 ≤ z := by exact_mod_cast hlow
  have hhigh' : (z : ℚ) + 1 ≤ (⌊x⌋ + 1) * n := by exact_mod_cast hhigh
  have hone : 1 / (n : ℚ) * n = 1 := div_mul_cancel₀ 1 hn'.ne'
  constructor
  · refine le_of_mul_le_mul_right ?_ hn'
    rwa [add_mul, hone, hmultiple]
  · refine le_of_mul_le_mul_right ?_ hn'
    rwa [add_mul, hone, hmultiple]

/-- A number near another one has its integral part if no integer is as near. -/
theorem floor_eq_of_near {x y distance : ℚ} (hnear : |y - x| < distance)
    (hlow : ⌊x⌋ + distance ≤ x) (hhigh : x + distance ≤ ⌊x⌋ + 1) : ⌊y⌋ = ⌊x⌋ := by
  obtain ⟨hbelow, habove⟩ := abs_lt.mp hnear
  rw [Int.floor_eq_iff]
  constructor <;> linarith

/-! ### What the untested files contribute -/

/-- The contribution of the untested files to the weighted sum, from the share of covered files: the
share, its complement, the percentage and the product with the weight are rounded. -/
def untestedPart (share : ℚ) : ℚ :=
  ((((1 : Binary64).sub (ofRat share)).mul 100).mul (RiskFactor.percent 25)).value

/-- The roundings of the contribution one by one. -/
theorem untestedPart_eq (share : ℚ) :
    untestedPart share = round53 (round53 (round53 (1 - round53 share) * 100) * (1 / 4)) := by
  have hweight : (RiskFactor.percent 25).value = 1 / 4 := by
    have hquarter : round53 ((1 : ℕ) / 2 ^ 2) = (1 : ℕ) / 2 ^ 2 :=
      round53_eq_self (by decide) (by decide)
    change round53 (mkRat 25 100) = _
    rw [Rat.mkRat_eq_div]
    norm_num at hquarter ⊢
    exact hquarter
  rw [← hweight, ← value_one, ← value_hundred]
  rfl

/-- A number from zero to an integer stays there, and is moved by little. -/
theorem round53_near {q : ℚ} (bound k : ℕ) (hbits : bound < 2 ^ 53) (hless : bound < 2 ^ k)
    (hq : 0 ≤ q) (hle : q ≤ bound) :
    0 ≤ round53 q ∧ round53 q ≤ bound ∧ |round53 q - q| ≤ 2 ^ ((k : ℤ) - 54) := by
  have hkept := upTo_ofRat_natCast hbits hq hle
  refine ⟨hkept.nonneg, hkept.le, abs_round53_sub_le (by omega) hq (hle.trans_lt ?_)⟩
  exact_mod_cast hless

/-- The roundings change the contribution by little. -/
theorem abs_untestedPart_sub_le {share : ℚ} (hnonneg : 0 ≤ share) (hle : share ≤ 1) :
    0 ≤ untestedPart share ∧ untestedPart share ≤ 25 ∧
      |untestedPart share - 25 * (1 - share)| ≤ 3 / 2 ^ 48 := by
  rw [untestedPart_eq]
  obtain ⟨hratio, hratio', hmoved⟩ :=
    round53_near (q := share) 1 1 (by decide) (by decide) hnonneg (by simpa)
  push_cast at hratio'
  obtain ⟨hrest, hrest', hmoved'⟩ :=
    round53_near (q := 1 - round53 share) 1 1 (by decide) (by decide)
      (by linarith) (by push_cast; linarith)
  push_cast at hrest'
  obtain ⟨hscore, hscore', hmoved''⟩ :=
    round53_near (q := round53 (1 - round53 share) * 100) 100 7 (by decide)
      (by decide) (by linarith) (by push_cast; linarith)
  push_cast at hscore'
  obtain ⟨hpart, hpart', hmoved'''⟩ :=
    round53_near (q := round53 (round53 (1 - round53 share) * 100) * (1 / 4)) 25 5
      (by decide) (by decide) (by linarith) (by push_cast; linarith)
  push_cast at hpart'
  refine ⟨hpart, hpart', ?_⟩
  norm_num [abs_le] at hmoved hmoved' hmoved'' hmoved''' ⊢
  constructor <;> linarith only [hmoved, hmoved', hmoved'', hmoved''']

/-! ### The sum and its rounding -/

/-- The integer that the weighted sum is rounded to. The total of the weights is one, but the sum is
divided by it with a rounding. -/
def integerOf (sum : ℚ) : ℤ := roundHalfUp ((ofRat sum).div 1)

/-- The integer is the integral part of a number that is next to the sum and a half, and not below
what halves the rounded sum is at least. -/
theorem exists_integerOf_eq (sum : ℚ) (hnonneg : 0 ≤ sum) (hle : sum ≤ 101) :
    ∃ x : ℚ, integerOf sum = ⌊x⌋ ∧ |x - (sum + 1 / 2)| ≤ 3 / 2 ^ 47 ∧
      ∀ halves : ℕ, halves < 2 ^ 52 → (halves : ℚ) / 2 ≤ round53 sum →
        ((halves + 1 : ℕ) : ℚ) / 2 ≤ x := by
  refine ⟨round53 (round53 (round53 sum) + 1 / 2), ?_, ?_, fun halves hhalves hsum => ?_⟩
  · have hquotient : (ofRat sum).value / (1 : Binary64).value = round53 sum := by
      rw [value_one, div_one]
      rfl
    rw [integerOf, roundHalfUp, div, hquotient, add, value_half]
    rfl
  · obtain ⟨hfirst, hfirst', hmoved⟩ :=
      round53_near (q := sum) 101 7 (by decide) (by decide) hnonneg
        (by exact_mod_cast hle)
    obtain ⟨hsecond, hsecond', hmoved'⟩ :=
      round53_near (q := round53 sum) 101 7 (by decide) (by decide) hfirst hfirst'
    push_cast at hsecond'
    obtain ⟨-, -, hmoved''⟩ :=
      round53_near (q := round53 (round53 sum) + 1 / 2) 102 7 (by decide)
        (by decide) (by linarith) (by push_cast; linarith)
    norm_num [abs_le] at hmoved hmoved' hmoved'' ⊢
    constructor <;> linarith only [hmoved, hmoved', hmoved'']
  · have hkept {q : ℚ} {n : ℕ} (hn : n < 2 ^ 53) (hq : (n : ℚ) / 2 ≤ q) :
        (n : ℚ) / 2 ≤ round53 q := by
      simpa using le_round53 (k := 1) hn (by decide) (by simpa using hq)
    refine hkept (by omega) ?_
    have hagain := hkept (by omega) hsum
    push_cast
    linarith

/-- A score in tens with a weight in steps of five percent contributes a number of halves
exactly. -/
theorem value_mul_percent {tens : ℕ} (htens : tens ≤ 10) {steps : ℕ} (hsteps : steps ∈ [6, 3, 2]) :
    ((ofRat (10 * tens : ℕ)).mul (RiskFactor.percent (5 * steps))).value =
      (steps * tens : ℕ) / 2 := by
  have hall : ∀ tens : ℕ, tens < 11 → ∀ steps : ℕ, steps ∈ [6, 3, 2] →
      ((ofRat (10 * tens : ℕ)).mul (RiskFactor.percent (5 * steps))).value =
        (steps * tens : ℕ) / 2 := by decide +kernel
  exact hall tens (by omega) steps hsteps

/-! ### Shares with which a half goes down -/

/-- The shares of covered files with which a mean that is a half goes down, each with the bound that
the mean is below. -/
def lossyShares : List (ℚ × ℚ) := [(34 / 100, 32), (78 / 100, 8), (90 / 100, 4)]

/-- With this share, this mean goes down if it is a half. -/
def LosesHalf (share mean : ℚ) : Prop := ∃ lossy ∈ lossyShares, share = lossy.1 ∧ mean < lossy.2

instance (share mean : ℚ) : Decidable (LosesHalf share mean) :=
  inferInstanceAs (Decidable (∃ lossy ∈ lossyShares, share = lossy.1 ∧ mean < lossy.2))

/-- The fiftieths of covered files of which the contribution comes out too small, each with what is
missing, in units of `1 / 2 ^ 51`. -/
def shortfalls : List (ℕ × ℕ) := [(17, 8), (28, 4), (34, 2), (39, 2), (40, 2), (45, 1), (46, 2)]

/-- With these fiftieths the contribution is too small by what is listed. -/
theorem untestedPart_of_mem_shortfalls : ∀ short ∈ shortfalls,
    untestedPart (short.1 / 50) = 25 * (1 - (short.1 : ℚ) / 50) - short.2 / (2 ^ 51 : ℕ) := by
  decide +kernel

/-- With all other fiftieths the contribution is not too small. -/
theorem le_untestedPart : ∀ fiftieths : ℕ, fiftieths ≤ 50 →
    fiftieths ∉ shortfalls.map Prod.fst →
    25 * (1 - (fiftieths : ℚ) / 50) ≤ untestedPart (fiftieths / 50) := by
  have hall : ∀ fiftieths : ℕ, fiftieths < 51 → fiftieths ∉ shortfalls.map Prod.fst →
      25 * (1 - (fiftieths : ℚ) / 50) ≤ untestedPart (fiftieths / 50) := by decide +kernel
  exact fun fiftieths hle => hall fiftieths (by omega)

/-- With a contribution that comes out too small, a small mean that is a half goes down if the share
is lossy. -/
theorem integerOf_of_mem_shortfalls : ∀ short ∈ shortfalls, ∀ halves : ℕ, halves < 64 →
    halves % 2 = 1 → 50 ≤ halves + short.1 →
    ((halves + short.1 - 50) % 2 = 1 → 15 ≤ halves + short.1 - 50) →
    integerOf (halves / 2 - short.2 / (2 ^ 51 : ℕ)) =
      ((halves + 1) / 2 : ℕ) - if LosesHalf (short.1 / 50) (halves / 2) then 1 else 0 := by
  decide +kernel

/-- A half goes down only with a contribution that comes out too small, and below a bound. -/
theorem of_losesHalf {fiftieths : ℕ} {mean : ℚ} (hloses : LosesHalf (fiftieths / 50) mean) :
    fiftieths ∈ shortfalls.map Prod.fst ∧ mean < 32 := by
  obtain ⟨lossy, hlossy, hshare, hless⟩ := hloses
  have hfifty : (fiftieths : ℚ) = lossy.1 * 50 := by
    rw [← hshare, div_mul_cancel₀ _ (by norm_num)]
  have hall : ∀ lossy ∈ lossyShares,
      (lossy.1 * 50 = (17 : ℕ) ∨ lossy.1 * 50 = (39 : ℕ) ∨ lossy.1 * 50 = (45 : ℕ)) ∧
        lossy.2 ≤ 32 := by
    norm_num [lossyShares]
  obtain ⟨hsome, hbound⟩ := hall lossy hlossy
  simp only [← hfifty, Nat.cast_inj] at hsome
  refine ⟨?_, hless.trans_le hbound⟩
  obtain rfl | rfl | rfl := hsome <;> decide

/-- A sum that falls short of some halves by little is rounded to no less if they are even among the
numbers of 53 bits, which stand `1 / 2 ^ (k + 1)` apart there. -/
theorem halves_le_round53_of_grid {sum : ℚ} {halves k : ℕ} (hpos : 0 < k) (hk : k ≤ 46)
    (hlow : 2 ^ 52 < halves * 2 ^ k) (hbits : halves * 2 ^ k < 2 ^ 53)
    (hnear : (halves : ℚ) / 2 - 1 / 2 ^ 48 ≤ sum) : (halves : ℚ) / 2 ≤ round53 sum := by
  have hhalves : (halves : ℚ) / 2 = (halves * 2 ^ k : ℕ) / 2 ^ (k + 1) := by
    push_cast
    field_simp
    ring
  have heven : halves * 2 ^ k % 2 = 0 :=
    Nat.mod_eq_zero_of_dvd (Dvd.dvd.mul_left (dvd_pow_self 2 hpos.ne') halves)
  have hstep : (1 : ℚ) / 2 ^ 48 ≤ 1 / 2 / 2 ^ (k + 1) := by
    rw [div_div, ← pow_succ']
    gcongr
    · norm_num
    · omega
  have hlow' : (2 : ℚ) ^ 52 + 1 ≤ (halves * 2 ^ k : ℕ) := by exact_mod_cast hlow
  have hlead : (2 : ℚ) ^ 52 / 2 ^ (k + 1) + 1 / 2 ^ (k + 1) ≤ halves / 2 := by
    rw [hhalves, ← add_div]
    gcongr
  rw [hhalves]
  refine le_round53_of_even hbits heven (by omega) ?_ ?_
  · rw [div_right_comm] at hstep
    linarith only [hnear, hstep, hlead, show (0 : ℚ) < 1 / 2 ^ (k + 1) by positivity]
  · rw [← hhalves]
    linarith only [hnear, hstep]

/-- Halves from 32 on are so far apart from the other numbers of 53 bits that a contribution that
comes out too small does not matter. -/
theorem halves_le_round53 {sum : ℚ} {halves : ℕ} (hlow : 64 ≤ halves) (hhigh : halves ≤ 256)
    (hodd : halves % 2 = 1) (hnear : (halves : ℚ) / 2 - 1 / 2 ^ 48 ≤ sum) :
    (halves : ℚ) / 2 ≤ round53 sum := by
  obtain hless | hmore := lt_or_ge halves 128
  · exact halves_le_round53_of_grid (k := 46) (by decide) (by decide) (by omega) (by omega) hnear
  · exact halves_le_round53_of_grid (k := 45) (by decide) (by decide) (by omega) (by omega) hnear

/-- If the rounded sum is not below a mean that is a half, this half goes up. -/
theorem integerOf_eq_of_le_round53 {sum : ℚ} {halves : ℕ} (hnonneg : 0 ≤ sum) (hle : sum ≤ 101)
    (hhigh : halves ≤ 256) (hodd : halves % 2 = 1) (hnear : sum ≤ halves / 2 + 1 / 4)
    (hround : (halves : ℚ) / 2 ≤ round53 sum) : integerOf sum = ((halves + 1) / 2 : ℕ) := by
  obtain ⟨x, hx, hmoved, hkept⟩ := exists_integerOf_eq sum hnonneg hle
  have hinteger : ((halves + 1 : ℕ) : ℚ) / 2 = ((halves + 1) / 2 : ℕ) := by
    have htwice : halves + 1 = (halves + 1) / 2 * 2 := by omega
    rw [div_eq_iff two_ne_zero]
    exact_mod_cast htwice
  have hup := hkept halves (by omega) hround
  rw [hx, Int.floor_eq_iff, Int.cast_natCast, ← hinteger]
  refine ⟨hup, ?_⟩
  have habove := (abs_le.mp hmoved).2
  rw [Nat.cast_succ, add_div]
  norm_num at habove ⊢
  linarith

/-- The halves of the mean, by the fiftieths of covered files and the halves of the other
factors. -/
theorem halves_eq {fiftieths : ℕ} (hfiftieths : fiftieths ≤ 50) (rest : ℕ) :
    ((50 - fiftieths + rest : ℕ) : ℚ) / 2 = rest / 2 + 25 * (1 - (fiftieths : ℚ) / 50) := by
  push_cast [Nat.cast_sub hfiftieths]
  ring

/-- The rounded sum is not below a mean that is a half, unless a contribution that comes out too
small meets a small mean. -/
theorem halves_le_round53_sum {fiftieths rest : ℕ} (hfiftieths : fiftieths ≤ 50)
    (hrest : rest ≤ 150) (hhalf : (50 - fiftieths + rest) % 2 = 1)
    (hlarge : fiftieths ∈ shortfalls.map Prod.fst → 64 ≤ 50 - fiftieths + rest) :
    ((50 - fiftieths + rest : ℕ) : ℚ) / 2 ≤
      round53 (rest / 2 + untestedPart (fiftieths / 50)) := by
  have hhalves := halves_eq hfiftieths rest
  by_cases hshort : fiftieths ∈ shortfalls.map Prod.fst
  · refine halves_le_round53 (hlarge hshort) (by omega) hhalf ?_
    obtain ⟨short, hmem, rfl⟩ := List.mem_map.mp hshort
    have hmost : (short.2 : ℚ) ≤ 8 := by
      exact_mod_cast (by decide : ∀ short ∈ shortfalls, short.2 ≤ 8) short hmem
    rw [untestedPart_of_mem_shortfalls short hmem, ← add_sub_assoc, ← hhalves]
    norm_num
    linarith only [hmost]
  · have hlow := le_untestedPart fiftieths hfiftieths hshort
    have hsum : ((50 - fiftieths + rest : ℕ) : ℚ) / 2 ^ 1 ≤
        rest / 2 + untestedPart (fiftieths / 50) := by
      rw [pow_one, hhalves]
      linarith only [hlow]
    simpa using le_round53 (by omega) (by decide) hsum

/-- A mean that is a half goes up, or down with a lossy share. -/
theorem integerOf_half {fiftieths rest : ℕ} (hfiftieths : fiftieths ≤ 50) (hrest : rest ≤ 150)
    (hodd : rest % 2 = 1 → 15 ≤ rest) (hhalf : (50 - fiftieths + rest) % 2 = 1) :
    integerOf (rest / 2 + untestedPart (fiftieths / 50)) =
      ((50 - fiftieths + rest + 1) / 2 : ℕ) -
        if LosesHalf (fiftieths / 50) ((50 - fiftieths + rest : ℕ) / 2) then 1 else 0 := by
  have hhalves := halves_eq hfiftieths rest
  by_cases hsmall : fiftieths ∈ shortfalls.map Prod.fst ∧ 50 - fiftieths + rest < 64
  · obtain ⟨hshort, hless⟩ := hsmall
    obtain ⟨short, hmem, rfl⟩ := List.mem_map.mp hshort
    rw [untestedPart_of_mem_shortfalls short hmem, ← add_sub_assoc, ← hhalves]
    exact integerOf_of_mem_shortfalls short hmem _ hless hhalf (by omega) (by omega)
  have hround := halves_le_round53_sum hfiftieths hrest hhalf fun hshort =>
    not_lt.mp (not_and.mp hsmall hshort)
  have hkept : ¬LosesHalf (fiftieths / 50) ((50 - fiftieths + rest : ℕ) / 2) := by
    intro hloses
    obtain ⟨hshort, hmean⟩ := of_losesHalf hloses
    have hbound : ((50 - fiftieths + rest : ℕ) : ℚ) < 64 := by linarith only [hmean]
    exact hsmall ⟨hshort, by exact_mod_cast hbound⟩
  have hshare : (fiftieths : ℚ) / 50 ≤ 1 :=
    div_le_one_of_le₀ (by exact_mod_cast hfiftieths) (by norm_num)
  obtain ⟨hpart, hpart', hmoved⟩ := abs_untestedPart_sub_le (by positivity) hshare
  have hless : (rest : ℚ) ≤ 150 := by exact_mod_cast hrest
  rw [if_neg hkept, sub_zero]
  refine integerOf_eq_of_le_round53 (by positivity) (by linarith only [hpart', hless])
    (by omega) hhalf ?_ hround
  have habove := (abs_le.mp hmoved).2
  rw [hhalves]
  norm_num at habove
  linarith only [habove]

/-! ### The score of an assessment -/

namespace RiskBasis

variable {basis : RiskBasis} {root : Root} {tree : Directory} {files : List ChangedFile}

/-- The share of untested files in percent that the counts of a report stand for. -/
def dueUntested (coverage : CoverageReport) : ℚ :=
  if coverage.changedSources = 0 then 0
  else 100 * (coverage.changedSources - coverage.coveredSources) / coverage.changedSources

/-- The scores of the six factors, the untested files by their counts. -/
def dueScores (basis : RiskBasis) : List ℚ := basis.exactScores.set 1 (dueUntested basis.coverage)

/-- The weighted mean of these scores. -/
def dueMean (basis : RiskBasis) : ℚ :=
  (List.zipWith (· * ·) basis.dueScores exactWeights).sum / exactWeights.sum

/-- The mean rounded once, to the nearest integer, a half going up. -/
def dueScore (basis : RiskBasis) : ℤ := roundedMean basis.dueScores

/-- The due score is the due mean with a half added, rounded down. -/
theorem dueScore_eq (basis : RiskBasis) : basis.dueScore = ⌊basis.dueMean + 1 / 2⌋ := rfl

/-- The due score of untested files is their share in percent. -/
theorem dueUntested_eq (coverage : CoverageReport) :
    dueUntested coverage = 100 * (1 - coverage.share) := by
  unfold dueUntested CoverageReport.share
  split
  · norm_num
  case isFalse hsome =>
    have hsome' : (coverage.changedSources : ℚ) ≠ 0 := Nat.cast_ne_zero.mpr hsome
    field_simp

/-- A score in tens, up to a hundred. -/
structure InTens (score tens : ℕ) : Prop where
  eq : score = 10 * tens
  le : tens ≤ 10

/-- The score of breaking changes is in tens. -/
theorem exists_breakingTens (changes : List BreakingChange) :
    ∃ tens, InTens (RiskFactor.breakingScore changes) tens := by
  unfold RiskFactor.breakingScore
  split_ifs
  exacts [⟨0, rfl, by omega⟩, ⟨10, rfl, by omega⟩, ⟨6, rfl, by omega⟩, ⟨3, rfl, by omega⟩]

/-- The score of the changed lines is fifty if it is odd in tens. -/
theorem exists_diffSizeTens (lines : ℤ) :
    ∃ tens, InTens (RiskFactor.diffSizeScore lines) tens ∧ (tens % 2 = 1 → tens = 5) := by
  unfold RiskFactor.diffSizeScore
  split_ifs
  exacts [⟨10, ⟨rfl, by omega⟩, by omega⟩, ⟨8, ⟨rfl, by omega⟩, by omega⟩,
    ⟨5, ⟨rfl, by omega⟩, by omega⟩, ⟨0, ⟨rfl, by omega⟩, by omega⟩]

/-- The score for configuration is in tens. -/
theorem exists_configTens (paths : List String) :
    ∃ tens, InTens (RiskFactor.configScore paths) tens := by
  unfold RiskFactor.configScore
  split_ifs
  exacts [⟨0, rfl, by omega⟩, ⟨10, rfl, by omega⟩, ⟨5, rfl, by omega⟩]

/-- A capped score with a step in tens is in tens. -/
theorem exists_cappedTens (count tensStep : ℕ) :
    ∃ tens, InTens (RiskFactor.capped count (10 * tensStep)) tens := by
  refine ⟨min (count * tensStep) 10, ?_, Nat.min_le_right _ _⟩
  rw [RiskFactor.capped, Nat.mul_left_comm]
  omega

/-- What a score in tens contributes to the weighted sum. -/
theorem InTens.value_mul {score tens : ℕ} (h : InTens score tens) (steps : ℕ)
    (hsteps : steps ∈ [6, 3, 2]) :
    ((ofRat score).mul (RiskFactor.percent (5 * steps))).value = (steps * tens : ℕ) / 2 := by
  rw [h.eq, value_mul_percent h.le hsteps]

/-- The scores of the factors other than the untested files, in tens. -/
structure ScoredInTens (basis : RiskBasis) (breaking size stale config indirect : ℕ) : Prop where
  breaking : InTens (RiskFactor.breakingScore basis.breaking) breaking
  size : InTens (RiskFactor.diffSizeScore (RiskFactor.changedLines basis.changed)) size
  stale : InTens (RiskFactor.capped basis.staleness.references.length 20) stale
  config : InTens (RiskFactor.configScore (RiskFactor.configPaths basis.changed)) config
  indirect : InTens (RiskFactor.capped basis.impact.indirectlyAffected.length 10) indirect

namespace ScoredInTens

variable {a b c d e : ℕ} (hscored : ScoredInTens basis a b c d e)

include hscored

/-- The exact mean counts the tens with the weights, in steps of five percent. -/
theorem dueMean_eq : basis.dueMean =
    (6 * a + 3 * b + 2 * c + 2 * d + 2 * e : ℕ) / 2 + 25 * (1 - basis.coverage.share) := by
  rw [dueMean, sum_exactWeights, dueScores, exactScores, dueUntested_eq, hscored.breaking.eq,
    hscored.size.eq, hscored.stale.eq, hscored.config.eq, hscored.indirect.eq]
  simp only [List.set, exactWeights, RiskAssessment.percentages, List.map_cons, List.map_nil,
    List.zipWith_cons_cons, List.zipWith_nil_left, List.sum_cons, List.sum_nil]
  push_cast
  ring

/-- The rounded contributions of these factors are exact. -/
theorem sum_contributions : [
    ((ofRat (RiskFactor.breakingScore basis.breaking)).mul (RiskFactor.percent 30)).value,
    ((RiskFactor.untestedScore basis.coverage).mul (RiskFactor.percent 25)).value,
    ((ofRat (RiskFactor.diffSizeScore (RiskFactor.changedLines basis.changed))).mul
      (RiskFactor.percent 15)).value,
    ((ofRat (RiskFactor.capped basis.staleness.references.length 20)).mul
      (RiskFactor.percent 10)).value,
    ((ofRat (RiskFactor.configScore (RiskFactor.configPaths basis.changed))).mul
      (RiskFactor.percent 10)).value,
    ((ofRat (RiskFactor.capped basis.impact.indirectlyAffected.length 10)).mul
      (RiskFactor.percent 10)).value].sum =
    ((6 * a + 3 * b + 2 * c + 2 * d + 2 * e : ℕ) : ℚ) / 2 +
      ((RiskFactor.untestedScore basis.coverage).mul (RiskFactor.percent 25)).value := by
  rw [hscored.breaking.value_mul 6 (by decide), hscored.size.value_mul 3 (by decide),
    hscored.stale.value_mul 2 (by decide), hscored.config.value_mul 2 (by decide),
    hscored.indirect.value_mul 2 (by decide)]
  simp only [List.sum_cons, List.sum_nil]
  push_cast
  ring

/-- The score of an assessment counts the same tens. -/
theorem weightedScore_eq {risk : RiskAssessment} (hrisk : basis.assessment? = some risk) :
    RiskAssessment.weightedScore risk.factors =
      integerOf ((6 * a + 3 * b + 2 * c + 2 * d + 2 * e : ℕ) / 2 +
        ((RiskFactor.untestedScore basis.coverage).mul (RiskFactor.percent 25)).value) := by
  obtain ⟨factors, hfactors, rfl⟩ := Option.map_eq_some_iff.mp hrisk
  obtain ⟨size, hsize, rfl⟩ := Option.map_eq_some_iff.mp hfactors
  obtain ⟨lines, -, hsize⟩ := Option.bind_eq_some_iff.mp hsize
  cases hsize
  rw [integerOf, ← hscored.sum_contributions, ← RiskAssessment.sum_percent]
  rfl

end ScoredInTens

/-- The factors other than the untested files contribute a number of halves, the same one to the
exact mean and to the rounded sum. -/
theorem exists_rest (basis : RiskBasis) :
    ∃ rest : ℕ, rest ≤ 150 ∧ (rest % 2 = 1 → 15 ≤ rest) ∧
      basis.dueMean = rest / 2 + 25 * (1 - basis.coverage.share) ∧
      ∀ risk, basis.assessment? = some risk → RiskAssessment.weightedScore risk.factors =
        integerOf (rest / 2 +
          ((RiskFactor.untestedScore basis.coverage).mul (RiskFactor.percent 25)).value) := by
  obtain ⟨a, ha⟩ := exists_breakingTens basis.breaking
  obtain ⟨b, hb, hodd⟩ := exists_diffSizeTens (RiskFactor.changedLines basis.changed)
  obtain ⟨c, hc⟩ := exists_cappedTens basis.staleness.references.length 2
  obtain ⟨d, hd⟩ := exists_configTens (RiskFactor.configPaths basis.changed)
  obtain ⟨e, he⟩ := exists_cappedTens basis.impact.indirectlyAffected.length 1
  have hscored : ScoredInTens basis a b c d e := ⟨ha, hb, hc, hd, he⟩
  refine ⟨6 * a + 3 * b + 2 * c + 2 * d + 2 * e, ?_, by omega, hscored.dueMean_eq,
    fun risk hrisk => hscored.weightedScore_eq hrisk⟩
  have := ha.le
  have := hb.le
  have := hc.le
  have := hd.le
  have := he.le
  omega

section Reported

variable (hreport : CoverageReport.ofChanges root tree files = .ok basis.coverage)

include hreport

/-- The covered files of a report are among its files, and its ratio is their share, rounded. -/
theorem ratio_of_ofChanges : basis.coverage.coveredSources ≤ basis.coverage.changedSources ∧
    basis.coverage.ratio = ofRat basis.coverage.share := by
  have hlookup := CoverageReport.exists_ofChanges_iff.mp ⟨_, hreport⟩
  rw [CoverageReport.ofChanges_eq hlookup] at hreport
  rw [← Except.ok.inj hreport]
  refine ⟨List.countP_le_length, ?_⟩
  by_cases hnone : sourcePaths files = []
  · simp only [CoverageReport.share, hnone, List.length_nil, if_true]
    rfl
  · have hsome : (sourcePaths files).length ≠ 0 := mt List.length_eq_zero_iff.mp hnone
    simp only [CoverageReport.share, hnone, hsome, if_false, Rat.mkRat_eq_div, Int.cast_natCast]

/-- The share of covered files is from zero to one, and a multiple of one by the number of files. -/
theorem share_of_ofChanges : 0 ≤ basis.coverage.share ∧ basis.coverage.share ≤ 1 ∧
    ∃ n : ℕ, 0 < n ∧ n ≤ max basis.coverage.changedSources 1 ∧
      ∃ z : ℤ, basis.coverage.share * n = z := by
  obtain ⟨hcovered, -⟩ := ratio_of_ofChanges hreport
  unfold CoverageReport.share
  split_ifs with hnone
  · exact ⟨zero_le_one, le_rfl, 1, one_pos, le_max_right _ _, 1, by norm_num⟩
  · have hsome : (basis.coverage.changedSources : ℚ) ≠ 0 := Nat.cast_ne_zero.mpr hnone
    exact ⟨by positivity, div_le_one_of_le₀ (Nat.cast_le.mpr hcovered) (Nat.cast_nonneg _),
      _, Nat.pos_of_ne_zero hnone, le_max_left _ _, basis.coverage.coveredSources,
      div_mul_cancel₀ _ hsome⟩

/-- The untested files contribute what their share does. -/
theorem untestedPart_of_ofChanges :
    ((RiskFactor.untestedScore basis.coverage).mul (RiskFactor.percent 25)).value =
      untestedPart basis.coverage.share := by
  by_cases hnone : basis.coverage.changedSources = 0
  · have hone : round53 1 = 1 := value_one
    have hzero : (0 : Binary64).value = 0 := round53_zero
    rw [RiskFactor.untestedScore, if_pos hnone, CoverageReport.share, if_pos hnone, untestedPart_eq,
      mul, hzero, hone]
    simp only [sub_self, round53_zero, zero_mul]
  · rw [RiskFactor.untestedScore, if_neg hnone, (ratio_of_ofChanges hreport).2]
    rfl

section Assessed

variable {risk : RiskAssessment} (hrisk : basis.assessment? = some risk)

include hrisk

/-- The score of an assessment is what the rounded sum is rounded to. -/
theorem exists_score_eq : ∃ rest : ℕ, rest ≤ 150 ∧ (rest % 2 = 1 → 15 ≤ rest) ∧
    basis.dueMean = rest / 2 + 25 * (1 - basis.coverage.share) ∧
      (risk.score : ℤ) = integerOf (rest / 2 + untestedPart basis.coverage.share) := by
  obtain ⟨rest, hrest, hodd, hmean, hscore⟩ := exists_rest basis
  have hwithin := RiskAssessment.withinBounds_of_ofChanges?
    (CoverageReport.upTo_ratio hreport) hrisk
  refine ⟨rest, hrest, hodd, hmean, ?_⟩
  rw [hwithin.exact, hscore risk hrisk, untestedPart_of_ofChanges hreport]

/-- The score is the integral part of a number that is next to the mean and a half. -/
theorem exists_score_eq_floor :
    ∃ x : ℚ, (risk.score : ℤ) = ⌊x⌋ ∧ |x - (basis.dueMean + 1 / 2)| < 1 / 2 ^ 44 := by
  obtain ⟨rest, hrest, -, hmean, hscore⟩ := exists_score_eq hreport hrisk
  obtain ⟨hnonneg, hle, -⟩ := share_of_ofChanges hreport
  obtain ⟨hpart, hpart', hmoved⟩ := abs_untestedPart_sub_le hnonneg hle
  have hless : (rest : ℚ) ≤ 150 := by exact_mod_cast hrest
  obtain ⟨x, hx, hnear, -⟩ :=
    exists_integerOf_eq (rest / 2 + untestedPart basis.coverage.share) (by positivity)
      (by linarith only [hless, hpart'])
  refine ⟨x, hscore.trans hx, ?_⟩
  rw [hmean]
  norm_num [abs_le, abs_lt] at hnear hmoved ⊢
  constructor <;> linarith only [hnear, hmoved]

/-- A mean that is a half goes up, but down with a lossy share. -/
theorem score_of_half {k : ℤ} (hhalf : basis.dueMean = k + 1 / 2) : (risk.score : ℤ) =
    basis.dueScore - if LosesHalf basis.coverage.share basis.dueMean then 1 else 0 := by
  obtain ⟨rest, hrest, hodd, hmean, hscore⟩ := exists_score_eq hreport hrisk
  obtain ⟨hnonneg, hle, -⟩ := share_of_ofChanges hreport
  -- the share is a number of fiftieths
  have hfifty : basis.coverage.share * 50 = (50 + rest - 2 * k - 1 : ℤ) := by
    push_cast
    linarith only [hmean, hhalf]
  have hlow : (0 : ℤ) ≤ 50 + rest - 2 * k - 1 := by
    have hcast : (0 : ℚ) ≤ (50 + rest - 2 * k - 1 : ℤ) := by rw [← hfifty]; positivity
    exact_mod_cast hcast
  have hhigh : 50 + rest - 2 * k - 1 ≤ (50 : ℤ) := by
    have hcast : ((50 + rest - 2 * k - 1 : ℤ) : ℚ) ≤ 50 := by
      rw [← hfifty]
      linarith only [hle]
    exact_mod_cast hcast
  obtain ⟨fiftieths, hfiftieths⟩ := Int.eq_ofNat_of_zero_le hlow
  have hshare : basis.coverage.share = fiftieths / 50 := by
    rw [eq_div_iff (by norm_num), hfifty, hfiftieths, Int.cast_natCast]
  have hhalves : basis.dueMean = (50 - fiftieths + rest : ℕ) / 2 := by
    rw [hmean, hshare]
    push_cast [Nat.cast_sub (show fiftieths ≤ 50 by omega)]
    ring
  have hdue : basis.dueScore = ((50 - fiftieths + rest + 1) / 2 : ℕ) := by
    rw [dueScore_eq, hhalf, add_assoc, add_halves, ← Int.cast_one, ← Int.cast_add,
      Int.floor_intCast]
    omega
  rw [hscore, hdue, hhalves, hshare]
  exact integerOf_half (by omega) hrest hodd (by omega)

/-- A mean of few files is not too close to a half for the nearest integer. -/
theorem score_of_apart (hbetween : ∀ k : ℤ, basis.dueMean ≠ k + 1 / 2)
    (hfiles : basis.coverage.changedSources ≤ 2 ^ 43) : (risk.score : ℤ) = basis.dueScore := by
  obtain ⟨rest, -, -, hmean, -⟩ := exists_score_eq hreport hrisk
  obtain ⟨-, -, n, hn, hmost, z, hz⟩ := share_of_ofChanges hreport
  obtain ⟨x, hx, hclose⟩ := exists_score_eq_floor hreport hrisk
  have hmultiple : (basis.dueMean + 1 / 2) * (2 * n : ℕ) = ((rest + 51) * n - 50 * z : ℤ) := by
    push_cast
    rw [← hz, hmean]
    ring
  have hapart : ∀ k : ℤ, basis.dueMean + 1 / 2 ≠ k := by
    intro k hk
    refine hbetween (k - 1) ?_
    push_cast
    linarith only [hk]
  obtain ⟨hlow, hhigh⟩ := apart_of_mul_eq (by omega) hmultiple hapart
  have hstep : (1 : ℚ) / 2 ^ 44 ≤ 1 / (2 * n : ℕ) := by
    gcongr
    exact_mod_cast (by omega : 2 * n ≤ 2 ^ 44)
  rw [hx, dueScore_eq]
  exact floor_eq_of_near hclose (by linarith only [hlow, hstep]) (by linarith only [hhigh, hstep])

end Assessed

/-- The risk of a change set with a report on its coverage is assessed exactly if the number of its
changed lines can be written. Its score is the mean of the factors' scores, with the untested files
by their counts, rounded to the nearest integer. If the mean is a half, it goes up, but down with a
lossy share. If there are more than `2 ^ 43` files, the mean may be too close to a half for that;
its score is off by no more than a half and a little. -/
theorem score_of_ofChanges :
    ((∃ risk, basis.assessment? = some risk) ↔
      RiskFactor.changedLines basis.changed < Text.countLimit) ∧
    ∀ risk, basis.assessment? = some risk →
      ((∃ k : ℤ, basis.dueMean = k + 1 / 2) →
        (risk.score : ℤ) = basis.dueScore -
          if LosesHalf basis.coverage.share basis.dueMean then 1 else 0) ∧
      ((∀ k : ℤ, basis.dueMean ≠ k + 1 / 2) → basis.coverage.changedSources ≤ 2 ^ 43 →
        (risk.score : ℤ) = basis.dueScore) ∧
      |(risk.score : ℚ) - basis.dueMean| ≤ 1 / 2 + 1 / 2 ^ 44 := by
  refine ⟨RiskAssessment.exists_ofChanges?_iff _ _ _ _, fun risk hrisk => ⟨?_, ?_, ?_⟩⟩
  · rintro ⟨k, hhalf⟩
    exact score_of_half hreport hrisk hhalf
  · exact score_of_apart hreport hrisk
  · obtain ⟨x, hx, hclose⟩ := exists_score_eq_floor hreport hrisk
    have hfloor : (risk.score : ℚ) = ⌊x⌋ := by exact_mod_cast hx
    have hlow := Int.floor_le x
    have hhigh := Int.lt_floor_add_one x
    obtain ⟨hbelow, habove⟩ := abs_lt.mp hclose
    rw [hfloor, abs_le]
    constructor <;> linarith only [hlow, hhigh, hbelow, habove]

end Reported

/-! ### A report with a lossy share -/

/-- A modified source file at the top. -/
def sourceNamed (name : String) : ChangedFile where
  path := name ++ ".ts"
  status := .modified
  category := .source

/-- The modified test beside it. -/
def testNamed (name : String) : ChangedFile where
  path := name ++ ".test.ts"
  status := .modified
  category := .test

/-- Names of source files that have a test. -/
def testedNames : List String := ["a", "b", "c", "d", "e", "f", "g", "h", "i"]

/-- A folder with a test for each of these names. -/
def testsTree : Directory :=
  testedNames.foldr (fun name rest => .file (name ++ ".test.ts") [] rest) .empty

/-- The folder as the root. -/
def testsRoot : Root := ⟨".", []⟩

/-- Changes of some source files with their tests, and of one source file without a test. -/
def changesOf (names : List String) : List ChangedFile :=
  (names ++ ["j"]).map sourceNamed ++ names.map testNamed

/-- The changed source files are those with a test and the one without. -/
theorem sourcePaths_changesOf (names : List String) :
    sourcePaths (changesOf names) = names.map (· ++ ".ts") ++ ["j.ts"] := by
  have hsources (some : List String) :
      (some.map sourceNamed).filter (·.category = .source) = some.map sourceNamed :=
    List.filter_eq_self.mpr fun file hfile => by
      obtain ⟨name, -, rfl⟩ := List.mem_map.mp hfile
      rfl
  have htests (some : List String) : (some.map testNamed).filter (·.category = .source) = [] :=
    List.filter_eq_nil_iff.mpr fun file hfile => by
      obtain ⟨name, -, rfl⟩ := List.mem_map.mp hfile
      simp [testNamed]
  rw [sourcePaths, changesOf, List.filter_append, hsources, htests, List.append_nil, List.map_map,
    List.map_append]
  rfl

/-- A source file is covered by the change of its test. -/
theorem isCovered_of_mem {names : List String} (hnames : names ⊆ testedNames) {name : String}
    (hname : name ∈ names) :
    Coverage.IsCovered testsRoot testsTree (changesOf names) (name ++ ".ts") := by
  have hstands : ∀ name ∈ testedNames, Path.IsNormalized (name ++ ".ts") ∧
      name ++ ".test.ts" ∈ Coverage.candidatesWith (Path.ofSegments (Path.folders (name ++ ".ts")))
        (Path.directory (Coverage.belowSourceRoot (name ++ ".ts")))
        (Path.withoutExtension (Path.fileName (name ++ ".ts"))) ".ts" ∧
      Coverage.isFile testsRoot testsTree (name ++ ".test.ts") = .ok true := by decide
  obtain ⟨hnormalized, hbeside, hfile⟩ := hstands name (hnames hname)
  refine ⟨name ++ ".test.ts", (Coverage.mem_candidates_iff_exists_mem hnormalized).mpr
    ⟨".ts", by decide, hbeside⟩, hfile, testNamed name, ?_, rfl, rfl⟩
  exact List.mem_append_right _ (List.mem_map_of_mem hname)

/-- The last source file is not covered: the changed tests are those of other names. -/
theorem not_isCovered_last {names : List String} (hnames : names ⊆ testedNames) :
    ¬Coverage.IsCovered testsRoot testsTree (changesOf names) "j.ts" := by
  have hother : ∀ extension ∈ Coverage.testExtensions,
      ∀ test ∈ Coverage.candidatesWith (Path.ofSegments (Path.folders "j.ts"))
        (Path.directory (Coverage.belowSourceRoot "j.ts"))
        (Path.withoutExtension (Path.fileName "j.ts")) extension,
      test ∉ testedNames.map (· ++ ".test.ts") := by decide
  rintro ⟨path, hpath, -, file, hfile, htest, rfl⟩
  obtain ⟨extension, hextension, hbeside⟩ :=
    (Coverage.mem_candidates_iff_exists_mem (by decide)).mp hpath
  refine hother extension hextension _ hbeside ?_
  obtain hsource | htested := List.mem_append.mp hfile
  · obtain ⟨name, -, rfl⟩ := List.mem_map.mp hsource
    cases htest
  · obtain ⟨name, hname, rfl⟩ := List.mem_map.mp htested
    exact List.mem_map_of_mem (hnames hname)

/-- The report on such changes. -/
def reportOf (names : List String) : CoverageReport where
  changedSources := names.length + 1
  coveredSources := names.length
  ratio := ofRat (mkRat names.length (names.length + 1))
  gaps := [Coverage.gapOf testsRoot testsTree "j.ts"]

/-- This is the report on such changes. -/
theorem ofChanges_changesOf {names : List String} (hnames : names ⊆ testedNames) :
    CoverageReport.ofChanges testsRoot testsTree (changesOf names) = .ok (reportOf names) := by
  have hroom : ∀ source ∈ testedNames.map (· ++ ".ts") ++ ["j.ts"],
      Coverage.LeavesRoom testsRoot source := by decide
  have hlookup : ∀ source ∈ sourcePaths (changesOf names), ∀ path ∈ Coverage.candidates source,
      Coverage.isFile testsRoot testsTree path ≠ .error .nameTooLong := by
    intro source hsource path hpath
    rw [sourcePaths_changesOf] at hsource
    have hmem : source ∈ testedNames.map (· ++ ".ts") ++ ["j.ts"] :=
      (List.mem_append.mp hsource).elim
        (fun hnamed => List.mem_append_left _ (List.map_subset _ hnames hnamed))
        (List.mem_append_right _)
    exact Coverage.isFile_candidate_ne_nameTooLong testsTree (List.forall_mem_nil _)
      (hroom source hmem) hpath
  have hcovered : ∀ source ∈ names.map (· ++ ".ts"),
      Coverage.IsCovered testsRoot testsTree (changesOf names) source := by
    intro source hsource
    obtain ⟨name, hname, rfl⟩ := List.mem_map.mp hsource
    exact isCovered_of_mem hnames hname
  have hlast := not_isCovered_last hnames
  have hcount : (sourcePaths (changesOf names)).countP (fun source =>
      Coverage.IsCovered testsRoot testsTree (changesOf names) source) = names.length := by
    rw [sourcePaths_changesOf, List.countP_append, List.countP_eq_length.mpr, List.length_map]
    · simp [hlast]
    · simpa using hcovered
  have hgaps : (sourcePaths (changesOf names)).filter (fun source =>
      ¬Coverage.IsCovered testsRoot testsTree (changesOf names) source) = ["j.ts"] := by
    rw [sourcePaths_changesOf, List.filter_append, List.filter_eq_nil_iff.mpr, List.nil_append]
    · simp [hlast]
    · simpa using hcovered
  have hlength : (sourcePaths (changesOf names)).length = names.length + 1 := by
    rw [sourcePaths_changesOf, List.length_append, List.length_map, List.length_singleton]
  have hsome : sourcePaths (changesOf names) ≠ [] := by
    rw [sourcePaths_changesOf]
    exact List.append_ne_nil_of_right_ne_nil _ (by decide)
  rw [CoverageReport.ofChanges_eq hlookup, hcount, hgaps, hlength, if_neg hsome]
  rfl

/-- What the risk of such changes is assessed from, with no other reasons. -/
def basisOf (names : List String) : RiskBasis where
  changed := changesOf names
  coverage := reportOf names

/-- One of two source files is covered: the mean is a half, and goes up. -/
theorem score_basisOf_half :
    CoverageReport.ofChanges testsRoot testsTree (changesOf ["a"]) =
        .ok (basisOf ["a"]).coverage ∧
      ∃ risk, (basisOf ["a"]).assessment? = some risk ∧ (basisOf ["a"]).dueMean = 12 + 1 / 2 ∧
        (risk.score : ℤ) = (basisOf ["a"]).dueScore ∧ risk.score = 13 := by
  have hreport : CoverageReport.ofChanges testsRoot testsTree (changesOf ["a"]) =
      .ok (basisOf ["a"]).coverage := ofChanges_changesOf (by decide)
  obtain ⟨hwritten, hscores⟩ := score_of_ofChanges hreport
  have hlines : RiskFactor.changedLines (basisOf ["a"]).changed = 0 := by decide
  obtain ⟨risk, hrisk⟩ := hwritten.mpr (hlines ▸ Text.lt_countLimit (by decide))
  obtain ⟨hhalf, -⟩ := hscores risk hrisk
  have hmean : (basisOf ["a"]).dueMean = 12 + 1 / 2 := by decide +kernel
  have hkept : ¬LosesHalf (basisOf ["a"]).coverage.share (basisOf ["a"]).dueMean := by
    decide +kernel
  have hscore := hhalf ⟨12, hmean⟩
  rw [if_neg hkept, sub_zero] at hscore
  have hdue : (basisOf ["a"]).dueScore = 13 := by norm_num [dueScore_eq, hmean]
  exact ⟨hreport, risk, hrisk, hmean, hscore, by rw [hdue] at hscore; exact_mod_cast hscore⟩

/-- Nine of ten source files are covered: the mean is a half, and goes down. -/
theorem score_basisOf_lossy :
    CoverageReport.ofChanges testsRoot testsTree (changesOf testedNames) =
        .ok (basisOf testedNames).coverage ∧
      (basisOf testedNames).coverage.changedSources = 10 ∧
      (basisOf testedNames).coverage.coveredSources = 9 ∧
      (basisOf testedNames).dueMean = 2 + 1 / 2 ∧ (basisOf testedNames).dueScore = 3 ∧
      (basisOf testedNames).assessment?.map RiskAssessment.score = some 2 := by
  have hmean : (basisOf testedNames).dueMean = 2 + 1 / 2 := by decide +kernel
  exact ⟨ofChanges_changesOf (List.Subset.refl _), rfl, rfl, hmean,
    by norm_num [dueScore_eq, hmean], by decide +kernel⟩

end RiskBasis

end ChangeImpact
