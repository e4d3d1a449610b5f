import ChangeImpact.Proofs.RiskBounds
import Mathlib.Data.List.Forall2

/-!
# Scores keep their order

Factors of the same weights may have lower scores or higher ones. The weighted mean of the lower
scores is no higher than that of the others, whether it is taken exactly or with a rounding of every
product, sum and quotient, and so is the integer that it is rounded to.
-/

namespace ChangeImpact

open Binary64

/-- Integers nearest to numbers that are not negative are in the order of the numbers. -/
theorem roundHalfUp_mono {x y : Binary64} (hx : 0 ≤ x.value) (hle : x.value ≤ y.value) :
    roundHalfUp x ≤ roundHalfUp y := by
  have hhalf : 0 ≤ x.value + (ofRat (mkRat 1 2)).value := by
    rw [value_half]
    linarith
  have hsum : x.value + (ofRat (mkRat 1 2)).value ≤ y.value + (ofRat (mkRat 1 2)).value := by
    gcongr
  rw [roundHalfUp, roundHalfUp, add, add, floor_eq, floor_eq]
  exact Int.floor_le_floor (Number.round53_mono hhalf hsum)

namespace RiskFactor

/-- A factor of the same weight as another one with a score that is no higher. -/
structure NotAbove (factor other : RiskFactor) : Prop where
  nonneg : 0 ≤ factor.score.value
  score_le : factor.score.value ≤ other.score.value
  weight_eq : factor.weight = other.weight
  weight_nonneg : 0 ≤ factor.weight.value

variable {factor other : RiskFactor}

/-- Of two such factors the first contributes no more to the exact sum. -/
theorem NotAbove.contribution_le (h : factor.NotAbove other) :
    0 ≤ factor.score.value * factor.weight.value ∧
      factor.score.value * factor.weight.value ≤ other.score.value * other.weight.value := by
  refine ⟨mul_nonneg h.nonneg h.weight_nonneg, ?_⟩
  rw [← h.weight_eq]
  exact mul_le_mul_of_nonneg_right h.score_le h.weight_nonneg

/-- Nor does it contribute more to the sum of rounded products. -/
theorem NotAbove.product_le (h : factor.NotAbove other) :
    0 ≤ (factor.score.mul factor.weight).value ∧
      (factor.score.mul factor.weight).value ≤ (other.score.mul other.weight).value := by
  obtain ⟨hnonneg, hle⟩ := h.contribution_le
  exact ⟨Number.round53_nonneg hnonneg, Number.round53_mono hnonneg hle⟩

/-- Counted scores are in the order of the counts. -/
theorem value_ofRat_mono {score other : ℕ} (hle : score ≤ other) :
    0 ≤ (Binary64.ofRat score).value ∧
      (Binary64.ofRat score).value ≤ (Binary64.ofRat other).value :=
  ⟨Number.round53_nonneg (Nat.cast_nonneg score),
    Number.round53_mono (Nat.cast_nonneg score) (Nat.cast_le.mpr hle)⟩

/-- No weight is negative. -/
theorem percent_nonneg (n : ℕ) : 0 ≤ (percent n).value := by
  refine Number.round53_nonneg ?_
  rw [Rat.mkRat_eq_div]
  positivity

/-- Breaking changes of a score that is no higher. -/
theorem breaking_notAbove {changes others : List BreakingChange}
    (hle : breakingScore changes ≤ breakingScore others) :
    (breaking changes).NotAbove (breaking others) :=
  ⟨(value_ofRat_mono hle).1, (value_ofRat_mono hle).2, rfl, percent_nonneg 30⟩

/-- A share of untested files that is no greater. -/
theorem untested_notAbove {coverage other : CoverageReport}
    (hnonneg : 0 ≤ (untestedScore coverage).value)
    (hle : (untestedScore coverage).value ≤ (untestedScore other).value) :
    (untested coverage).NotAbove (untested other) :=
  ⟨hnonneg, hle, rfl, percent_nonneg 25⟩

/-- No more changed lines. -/
theorem diffSizeScore_mono {lines more : ℤ} (hle : lines ≤ more) :
    diffSizeScore lines ≤ diffSizeScore more := by
  unfold diffSizeScore
  split_ifs <;> omega

/-- With no more changed lines, the factor of the diff size is not above. -/
theorem diffSize_notAbove {changed others : List ChangedFile} {size size' : RiskFactor}
    (hsize : diffSize? changed = some size) (hsize' : diffSize? others = some size')
    (hle : changedLines changed ≤ changedLines others) : size.NotAbove size' := by
  obtain ⟨_, -, hfactor⟩ := Option.bind_eq_some_iff.mp hsize
  obtain ⟨_, -, hfactor'⟩ := Option.bind_eq_some_iff.mp hsize'
  cases hfactor
  cases hfactor'
  have hscore := value_ofRat_mono (diffSizeScore_mono (Int.ofNat_le.mpr hle))
  exact ⟨hscore.1, hscore.2, rfl, percent_nonneg 15⟩

/-- What is counted in steps goes up with the count. -/
theorem capped_mono {count more : ℕ} (hle : count ≤ more) (step : ℕ) :
    capped count step ≤ capped more step :=
  min_le_min_right 100 (Nat.mul_le_mul_right step hle)

/-- No more stale references. -/
theorem staleDocs_notAbove {staleness other : StalenessReport}
    (hle : staleness.references.length ≤ other.references.length) :
    (staleDocs staleness).NotAbove (staleDocs other) := by
  have hscore := value_ofRat_mono (capped_mono hle 20)
  exact ⟨hscore.1, hscore.2, rfl, percent_nonneg 10⟩

/-- Changes of configuration of a score that is no higher. -/
theorem configChanges_notAbove {changed others : List ChangedFile}
    (hle : configScore (configPaths changed) ≤ configScore (configPaths others)) :
    (configChanges changed).NotAbove (configChanges others) :=
  ⟨(value_ofRat_mono hle).1, (value_ofRat_mono hle).2, rfl, percent_nonneg 10⟩

/-- No more affected files. -/
theorem impactBreadth_notAbove {impact other : ImpactGraph}
    (hle : impact.indirectlyAffected.length ≤ other.indirectlyAffected.length) :
    (impactBreadth impact).NotAbove (impactBreadth other) := by
  have hscore := value_ofRat_mono (capped_mono hle 10)
  exact ⟨hscore.1, hscore.2, rfl, percent_nonneg 10⟩

end RiskFactor

namespace RiskAssessment

variable {factors others : List RiskFactor}

/-- The weighted mean of some factors' scores, without any rounding. -/
def exactMean (factors : List RiskFactor) : ℚ :=
  (factors.map fun f => f.score.value * f.weight.value).sum /
    (factors.map fun f => f.weight.value).sum

/-- The weighted mean rounded once, to the nearest integer, a half going up. -/
def exactScore (factors : List RiskFactor) : ℤ := ⌊exactMean factors + 1 / 2⌋

/-- Factors that are not above others have their weights. -/
theorem weights_eq (h : List.Forall₂ RiskFactor.NotAbove factors others) :
    factors.map (·.weight) = others.map (·.weight) := by
  induction h with
  | nil => rfl
  | cons hfirst _ ih => rw [List.map_cons, List.map_cons, hfirst.weight_eq, ih]

/-- The exact sums of contributions are in the order of the contributions. -/
theorem sum_map_le {contribution : RiskFactor → ℚ}
    (hcontribution : ∀ {factor other}, RiskFactor.NotAbove factor other →
      0 ≤ contribution factor ∧ contribution factor ≤ contribution other)
    (h : List.Forall₂ RiskFactor.NotAbove factors others) :
    0 ≤ (factors.map contribution).sum ∧
      (factors.map contribution).sum ≤ (others.map contribution).sum := by
  induction h with
  | nil => exact ⟨le_rfl, le_rfl⟩
  | cons hfirst _ ih =>
    obtain ⟨hnonneg, hle⟩ := hcontribution hfirst
    rw [List.map_cons, List.map_cons, List.sum_cons, List.sum_cons]
    exact ⟨add_nonneg hnonneg ih.1, add_le_add hle ih.2⟩

/-- No weight is negative. -/
theorem weights_nonneg (h : List.Forall₂ RiskFactor.NotAbove factors others) :
    0 ≤ (factors.map fun f => f.weight.value).sum := by
  refine (sum_map_le (fun {factor other} hfactor => ⟨hfactor.weight_nonneg, ?_⟩) h).1
  rw [hfactor.weight_eq]

/-- A sum of rounded numbers is the rounded sum. -/
theorem value_sum (xs : List Binary64) :
    (Binary64.sum xs).value = Number.round53 (xs.map (·.value)).sum := by
  have hsum : xs.foldr (fun x total => x.value + total) 0 = (xs.map (·.value)).sum := by
    rw [List.sum_eq_foldr, List.foldr_map]
  rw [Binary64.sum, hsum]
  rfl

/-- Scores that are not above others have an exact mean that is not above theirs. -/
theorem exactScore_mono (h : List.Forall₂ RiskFactor.NotAbove factors others) :
    exactScore factors ≤ exactScore others := by
  have hweights : (factors.map fun f => f.weight.value) = others.map fun f => f.weight.value := by
    have hsame := congrArg (List.map Binary64.value) (weights_eq h)
    rwa [List.map_map, List.map_map] at hsame
  have hmean : exactMean factors ≤ exactMean others := by
    rw [exactMean, exactMean, ← hweights]
    exact div_le_div_of_nonneg_right (sum_map_le RiskFactor.NotAbove.contribution_le h).2
      (weights_nonneg h)
  exact Int.floor_le_floor (by gcongr)

/-- Scores that are not above others lead to an integer that is not above theirs. -/
theorem weightedScore_mono (h : List.Forall₂ RiskFactor.NotAbove factors others) :
    weightedScore factors ≤ weightedScore others := by
  have hweight : 0 ≤ (Binary64.sum (factors.map (·.weight))).value := by
    rw [value_sum, List.map_map]
    exact Number.round53_nonneg (weights_nonneg h)
  obtain ⟨hnonneg, hle⟩ := sum_map_le RiskFactor.NotAbove.product_le h
  have hsum : 0 ≤ (Binary64.sum (factors.map fun f => f.score.mul f.weight)).value ∧
      (Binary64.sum (factors.map fun f => f.score.mul f.weight)).value ≤
        (Binary64.sum (others.map fun f => f.score.mul f.weight)).value := by
    rw [value_sum, value_sum, List.map_map, List.map_map]
    exact ⟨Number.round53_nonneg hnonneg, Number.round53_mono hnonneg hle⟩
  have hquotient : 0 ≤ (Binary64.sum (factors.map fun f => f.score.mul f.weight)).value /
      (Binary64.sum (factors.map (·.weight))).value := div_nonneg hsum.1 hweight
  rw [weightedScore, weightedScore, ← weights_eq h]
  refine roundHalfUp_mono (Number.round53_nonneg hquotient) (Number.round53_mono hquotient ?_)
  exact div_le_div_of_nonneg_right hsum.2 hweight

section Assessments

variable {changed changed' : List ChangedFile} {breaking breaking' : List BreakingChange}
  {coverage coverage' : CoverageReport} {staleness staleness' : StalenessReport}
  {impact impact' : ImpactGraph} {risk risk' : RiskAssessment}

/-- Of two assessments, the one with the lower scores for all parts has factors that are not above
those of the other. -/
theorem notAbove_of_ofChanges? (hratio : coverage.ratio.UpTo 1)
    (hrisk : ofChanges? changed breaking coverage staleness impact = some risk)
    (hrisk' : ofChanges? changed' breaking' coverage' staleness' impact' = some risk')
    (hbreaking : RiskFactor.breakingScore breaking ≤ RiskFactor.breakingScore breaking')
    (huntested : (RiskFactor.untestedScore coverage).value ≤
      (RiskFactor.untestedScore coverage').value)
    (hlines : RiskFactor.changedLines changed ≤ RiskFactor.changedLines changed')
    (hstale : staleness.references.length ≤ staleness'.references.length)
    (hconfig : RiskFactor.configScore (RiskFactor.configPaths changed) ≤
      RiskFactor.configScore (RiskFactor.configPaths changed'))
    (himpact : impact.indirectlyAffected.length ≤ impact'.indirectlyAffected.length) :
    List.Forall₂ RiskFactor.NotAbove risk.factors risk'.factors := by
  obtain ⟨factors, hfactors, rfl⟩ := Option.map_eq_some_iff.mp hrisk
  obtain ⟨factors', hfactors', rfl⟩ := Option.map_eq_some_iff.mp hrisk'
  obtain ⟨size, hsize, rfl⟩ := Option.map_eq_some_iff.mp hfactors
  obtain ⟨size', hsize', rfl⟩ := Option.map_eq_some_iff.mp hfactors'
  exact .cons (RiskFactor.breaking_notAbove hbreaking) <|
    .cons (RiskFactor.untested_notAbove (RiskFactor.upTo_untestedScore hratio).nonneg huntested) <|
    .cons (RiskFactor.diffSize_notAbove hsize hsize' hlines) <|
    .cons (RiskFactor.staleDocs_notAbove hstale) <|
    .cons (RiskFactor.configChanges_notAbove hconfig) <|
    .cons (RiskFactor.impactBreadth_notAbove himpact) .nil

/-- Assessments are in the order of their factors, with their scores as they are and with exact
ones. -/
theorem score_le_of_notAbove (hwithin : risk.WithinBounds) (hwithin' : risk'.WithinBounds)
    (h : List.Forall₂ RiskFactor.NotAbove risk.factors risk'.factors) :
    risk.score ≤ risk'.score ∧ exactScore risk.factors ≤ exactScore risk'.factors := by
  refine ⟨?_, exactScore_mono h⟩
  have hscore := weightedScore_mono h
  rw [← hwithin.exact, ← hwithin'.exact] at hscore
  exact_mod_cast hscore

end Assessments

end RiskAssessment

end ChangeImpact
