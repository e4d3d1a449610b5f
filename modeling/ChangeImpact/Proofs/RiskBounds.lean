import ChangeImpact.Risk.Assessment
import ChangeImpact.Proofs.Rounding
import ChangeImpact.Proofs.Outcome

/-!
# Scores stay in their bounds

The share of covered files is a number from zero to one and every factor of the risk has a score
from zero to a hundred, so that the weighted mean of the scores is rounded to an integer in the same
range, although every product, sum and quotient on the way is rounded.
-/

namespace ChangeImpact

namespace Binary64

/-- A number from zero to a bound. -/
structure UpTo (bound : ℚ) (x : Binary64) : Prop where
  nonneg : 0 ≤ x.value
  le : x.value ≤ bound

/-- Rounding keeps within a bound of at most 53 bits. -/
theorem upTo_ofRat {q : ℚ} {n k : ℕ} (hn : n < 2 ^ 53) (hk : k ≤ 1074) (hq : 0 ≤ q)
    (hbound : q ≤ n / 2 ^ k) : UpTo (n / 2 ^ k) (ofRat q) :=
  ⟨Number.round53_nonneg hq, Number.round53_le hn hk hq hbound⟩

/-- Rounding keeps within a bound that is an integer of at most 53 bits. -/
theorem upTo_ofRat_natCast {q : ℚ} {n : ℕ} (hn : n < 2 ^ 53) (hq : 0 ≤ q) (hbound : q ≤ n) :
    UpTo n (ofRat q) := by
  have h := upTo_ofRat (k := 0) hn (by decide) hq (by simpa using hbound)
  simpa using h

/-- A count is rounded within its bound. -/
theorem upTo_ofRat_of_le {count n : ℕ} (hn : n < 2 ^ 53) (hcount : count ≤ n) :
    UpTo n (ofRat count) :=
  upTo_ofRat_natCast hn (Nat.cast_nonneg count) (Nat.cast_le.mpr hcount)

/-- A share of a count is a number from zero to one. -/
theorem upTo_ofRat_mkRat {part whole : ℕ} (hpart : part ≤ whole) :
    UpTo 1 (ofRat (mkRat part whole)) := by
  have hshare : (mkRat part whole : ℚ) = part / whole := by
    rw [Rat.mkRat_eq_div, Int.cast_natCast]
  have hle : (part : ℚ) / whole ≤ (1 : ℕ) := by
    rw [Nat.cast_one]
    exact div_le_one_of_le₀ (Nat.cast_le.mpr hpart) (Nat.cast_nonneg whole)
  rw [hshare]
  exact_mod_cast upTo_ofRat_natCast (by decide) (by positivity) hle

/-- To divide by one keeps within a bound of at most 53 bits. -/
theorem UpTo.div_of_eq_one {x whole : Binary64} {n k : ℕ} (hn : n < 2 ^ 53) (hk : k ≤ 1074)
    (hx : x.UpTo (n / 2 ^ k)) (hwhole : whole.value = 1) : (x.div whole).UpTo (n / 2 ^ k) := by
  have hquotient : x.value / whole.value = x.value := by rw [hwhole, div_one]
  rw [div, hquotient]
  exact upTo_ofRat hn hk hx.nonneg hx.le

/-- The floor of a number is that of its value. -/
theorem floor_eq (x : Binary64) : x.floor = ⌊x.value⌋ := rfl

/-- An integer of at most 53 bits is kept. -/
theorem value_ofRat_natCast {n : ℕ} (hn : n < 2 ^ 53) : (ofRat n).value = n := by
  have hkept := Number.round53_eq_self (k := 0) hn (by decide)
  rwa [pow_zero, div_one] at hkept

/-- One is exact. -/
theorem value_one : (1 : Binary64).value = 1 := by
  exact_mod_cast value_ofRat_natCast (n := 1) (by decide)

/-- A hundred is exact. -/
theorem value_hundred : (100 : Binary64).value = 100 := by
  exact_mod_cast value_ofRat_natCast (n := 100) (by decide)

/-- One half is kept as well. -/
theorem value_half : (ofRat (mkRat 1 2)).value = 1 / 2 := by
  have hhalf : (mkRat 1 2 : ℚ) = (1 : ℕ) / 2 ^ 1 := by
    rw [Rat.mkRat_eq_div]
    norm_num
  rw [hhalf]
  exact (Number.round53_eq_self (by decide) (by decide)).trans (by norm_num)

end Binary64

open Binary64

/-- The share of covered files of any report is a number from zero to one. -/
theorem CoverageReport.upTo_ratio {root : Root} {tree : Directory} {changed : List ChangedFile}
    {report : CoverageReport} (hreport : ofChanges root tree changed = .ok report) :
    report.ratio.UpTo 1 := by
  obtain ⟨outcomes, houtcomes, hreport⟩ := bind_eq_ok_iff.mp hreport
  dsimp only at hreport
  split at hreport
  · cases hreport
    exact_mod_cast upTo_ofRat_of_le (by decide) (le_refl 1)
  · cases hreport
    refine upTo_ofRat_mkRat ?_
    rw [← length_of_mapM houtcomes]
    exact List.countP_le_length

namespace RiskFactor

/-- A factor that is within the bounds of its record. -/
structure WithinBounds (factor : RiskFactor) : Prop where
  score : factor.score.UpTo 100
  weight : factor.weight.UpTo 1

/-- The score of breaking changes is at most a hundred. -/
theorem breakingScore_le (changes : List BreakingChange) : breakingScore changes ≤ 100 := by
  unfold breakingScore
  split_ifs <;> decide

/-- The score of the changed lines is at most a hundred. -/
theorem diffSizeScore_le (lines : ℤ) : diffSizeScore lines ≤ 100 := by
  unfold diffSizeScore
  split_ifs <;> decide

/-- The score for configuration is at most a hundred. -/
theorem configScore_le (paths : List String) : configScore paths ≤ 100 := by
  unfold configScore
  split_ifs <;> decide

/-- A capped score is at most a hundred. -/
theorem capped_le (count step : ℕ) : capped count step ≤ 100 := Nat.min_le_right _ _

/-- A score that is an integer up to a hundred. -/
theorem upTo_score {score : ℕ} (hscore : score ≤ 100) : (ofRat score).UpTo 100 :=
  upTo_ofRat_of_le (by decide) hscore

/-- The share of uncovered files in percent. -/
theorem upTo_untestedScore {coverage : CoverageReport} (hratio : coverage.ratio.UpTo 1) :
    (untestedScore coverage).UpTo 100 := by
  unfold untestedScore
  split
  · exact_mod_cast upTo_ofRat_of_le (by decide) (Nat.zero_le 100)
  · have hrest : (sub 1 coverage.ratio).UpTo 1 := by
      have hnonneg : 0 ≤ (1 : Binary64).value - coverage.ratio.value := by
        rw [value_one]
        linarith [hratio.le]
      have hle : (1 : Binary64).value - coverage.ratio.value ≤ (1 : ℕ) := by
        rw [value_one, Nat.cast_one]
        linarith [hratio.nonneg]
      exact_mod_cast upTo_ofRat_natCast (by decide) hnonneg hle
    have hnonneg : 0 ≤ (sub 1 coverage.ratio).value * (100 : Binary64).value := by
      rw [value_hundred]
      linarith [hrest.nonneg]
    have hle : (sub 1 coverage.ratio).value * (100 : Binary64).value ≤ (100 : ℕ) := by
      rw [value_hundred]
      push_cast
      linarith [hrest.le]
    obtain ⟨hlow, hhigh⟩ := upTo_ofRat_natCast (by decide) hnonneg hle
    exact ⟨hlow, hhigh⟩

end RiskFactor

/-- A number that is less than a half above an integer is not rounded beyond that integer. -/
theorem roundHalfUp_bounds {x : Binary64} {bound : ℕ} (hbits : 1024 * bound + 1023 < 2 ^ 53)
    (hx : x.UpTo ((1024 * bound + 511 : ℕ) / 2 ^ 10)) :
    0 ≤ roundHalfUp x ∧ roundHalfUp x ≤ bound := by
  have hnonneg : 0 ≤ x.value + (ofRat (mkRat 1 2)).value := by
    rw [value_half]
    linarith [hx.nonneg]
  have hle : x.value + (ofRat (mkRat 1 2)).value ≤ (1024 * bound + 1023 : ℕ) / 2 ^ 10 := by
    have hbelow := hx.le
    rw [value_half]
    push_cast at hbelow ⊢
    linarith
  obtain ⟨hlow, hhigh⟩ := upTo_ofRat hbits (by decide) hnonneg hle
  rw [roundHalfUp, add, floor_eq]
  refine ⟨Int.floor_nonneg.mpr hlow, Int.lt_add_one_iff.mp (Int.floor_lt.mpr ?_)⟩
  refine lt_of_le_of_lt hhigh ?_
  push_cast
  linarith

namespace RiskAssessment

variable {changed : List ChangedFile} {breaking : List BreakingChange} {coverage : CoverageReport}
  {staleness : StalenessReport} {impact : ImpactGraph} {factors : List RiskFactor}
  {risk : RiskAssessment}

/-- The weights of the factors in percent. -/
def percentages : List ℕ := [30, 25, 15, 10, 10, 10]

/-- No weight is more than a hundred percent. -/
theorem percentage_le {percentage : ℕ} (hmem : percentage ∈ percentages) : percentage ≤ 100 := by
  revert percentage
  decide

/-- Every factor of a change set has a score up to a hundred, and the weights are the
percentages. -/
theorem upTo_score_of_factorsOf? (hratio : coverage.ratio.UpTo 1)
    (hfactors : factorsOf? changed breaking coverage staleness impact = some factors) :
    (∀ factor ∈ factors, factor.score.UpTo 100) ∧
      factors.map (·.weight) = percentages.map RiskFactor.percent := by
  obtain ⟨size, hsize, rfl⟩ := Option.map_eq_some_iff.mp hfactors
  obtain ⟨lines, -, hsize⟩ := Option.bind_eq_some_iff.mp hsize
  cases hsize
  refine ⟨?_, rfl⟩
  simp only [List.forall_mem_cons]
  exact ⟨RiskFactor.upTo_score (RiskFactor.breakingScore_le breaking),
    RiskFactor.upTo_untestedScore hratio,
    RiskFactor.upTo_score (RiskFactor.diffSizeScore_le _),
    RiskFactor.upTo_score (RiskFactor.capped_le _ _),
    RiskFactor.upTo_score (RiskFactor.configScore_le _),
    RiskFactor.upTo_score (RiskFactor.capped_le _ _),
    List.forall_mem_nil _⟩

/-- What a factor may contribute to the weighted sum: its percentage, and a little more for the
rounding of the weight. -/
def mostOf (percentage : ℕ) : ℚ := percentage + 1 / 1024

/-- A factor contributes no more than that to the weighted sum. -/
theorem upTo_mul {score : Binary64} (hscore : score.UpTo 100) {percentage : ℕ}
    (hmem : percentage ∈ percentages) :
    (score.mul (RiskFactor.percent percentage)).UpTo (mostOf percentage) := by
  have hweight : 0 ≤ (RiskFactor.percent percentage).value ∧
      100 * (RiskFactor.percent percentage).value ≤ mostOf percentage ∧
      1024 * percentage + 1 < 2 ^ 53 := by
    revert percentage
    decide +kernel
  obtain ⟨hpositive, hmost, hbits⟩ := hweight
  have hquotient : mostOf percentage = (1024 * percentage + 1 : ℕ) / 2 ^ 10 := by
    rw [mostOf]
    push_cast
    ring
  have hproduct : score.value * (RiskFactor.percent percentage).value ≤ mostOf percentage :=
    (mul_le_mul_of_nonneg_right hscore.le hpositive).trans hmost
  rw [hquotient] at hproduct ⊢
  obtain ⟨hlow, hhigh⟩ :=
    upTo_ofRat hbits (by decide) (mul_nonneg hscore.nonneg hpositive) hproduct
  exact ⟨hlow, hhigh⟩

/-- The exact sum of the factors' contributions. -/
theorem foldr_bounds {percents : List ℕ} (hpercents : ∀ p ∈ percents, p ∈ percentages)
    (hscores : ∀ factor ∈ factors, factor.score.UpTo 100)
    (hweights : factors.map (·.weight) = percents.map RiskFactor.percent) :
    let total := (factors.map fun f => f.score.mul f.weight).foldr (fun x sum => x.value + sum) 0
    0 ≤ total ∧ total ≤ (percents.map mostOf).sum := by
  induction factors generalizing percents with
  | nil =>
    obtain rfl := List.map_eq_nil_iff.mp hweights.symm
    exact ⟨le_refl 0, le_refl 0⟩
  | cons factor factors ih =>
    obtain ⟨p, rest, rfl, hweight, hrest⟩ := List.map_eq_cons_iff.mp hweights.symm
    rw [List.forall_mem_cons] at hpercents hscores
    obtain ⟨hlow, hhigh⟩ := ih hpercents.2 hscores.2 hrest.symm
    obtain ⟨hfirst, hfirst'⟩ := upTo_mul hscores.1 hpercents.1
    rw [hweight] at hfirst hfirst'
    simp only [List.map_cons, List.foldr_cons, List.sum_cons]
    exact ⟨add_nonneg hfirst hlow, add_le_add hfirst' hhigh⟩

/-- The total of the weights is one. -/
theorem sum_percent : Binary64.sum (percentages.map RiskFactor.percent) = 1 := by decide +kernel

/-- The weighted mean of the factors' scores is an integer from zero to a hundred. -/
theorem weightedScore_bounds (hscores : ∀ factor ∈ factors, factor.score.UpTo 100)
    (hweights : factors.map (·.weight) = percentages.map RiskFactor.percent) :
    0 ≤ weightedScore factors ∧ weightedScore factors ≤ 100 := by
  have hmost : (percentages.map mostOf).sum ≤ (1024 * 100 + 511 : ℕ) / 2 ^ 10 := by
    norm_num [percentages, mostOf]
  have hwhole : (Binary64.sum (factors.map (·.weight))).value = 1 := by
    rw [hweights, sum_percent, value_one]
  obtain ⟨hlow, hhigh⟩ := foldr_bounds (fun p hp => hp) hscores hweights
  have hsum : (Binary64.sum (factors.map fun f => f.score.mul f.weight)).UpTo _ :=
    upTo_ofRat (by decide) (by decide) hlow (hhigh.trans hmost)
  exact roundHalfUp_bounds (by decide) (hsum.div_of_eq_one (by decide) (by decide) hwhole)

/-- An assessment that is within the bounds of its record. Its score is the weighted mean itself, of
which nothing is cut off at zero. -/
structure WithinBounds (risk : RiskAssessment) : Prop where
  factors : ∀ factor ∈ risk.factors, factor.WithinBounds
  score : risk.score ≤ 100
  exact : (risk.score : ℤ) = weightedScore risk.factors

/-- The risk of a change set is within its bounds. -/
theorem withinBounds_of_ofChanges? (hratio : coverage.ratio.UpTo 1)
    (hrisk : ofChanges? changed breaking coverage staleness impact = some risk) :
    risk.WithinBounds := by
  obtain ⟨factors, hfactors, rfl⟩ := Option.map_eq_some_iff.mp hrisk
  obtain ⟨hscores, hweights⟩ := upTo_score_of_factorsOf? hratio hfactors
  obtain ⟨hlow, hhigh⟩ := weightedScore_bounds hscores hweights
  have hexact : ((weightedScore factors).toNat : ℤ) = weightedScore factors :=
    Int.toNat_of_nonneg hlow
  refine ⟨fun factor hfactor => ⟨hscores factor hfactor, ?_⟩, ?_, hexact⟩
  · have hweight : factor.weight ∈ percentages.map RiskFactor.percent :=
      hweights ▸ List.mem_map_of_mem hfactor
    obtain ⟨percentage, hpercentage, hweight⟩ := List.mem_map.mp hweight
    rw [← hweight]
    exact upTo_ofRat_mkRat (percentage_le hpercentage)
  · exact Int.ofNat_le.mp (hexact ▸ hhigh)

end RiskAssessment

end ChangeImpact
