import ChangeImpact.Proofs.AnalysisRun
import ChangeImpact.Proofs.RiskOrder
import Mathlib.Algebra.Order.BigOperators.Group.List

/-!
# Risk grows with its reasons

A change set with more breaking changes, changed files, stale references and affected files, and
with a lower share of covered files, has no lower risk. This holds of the score that is computed
with a rounding of every product, sum and quotient, and of the same score in exact numbers, and so
of their levels. There is a score for every change set whose changed lines are not too many for
their number to be written.
-/

namespace ChangeImpact

open Binary64

/-! ### Levels -/

namespace RiskLevel

/-- The place of a level among all levels, the lowest first. -/
def rank (level : RiskLevel) : ℕ := all.idxOf level

/-- A score that is no higher has a level that is no higher. -/
theorem rank_ofScore_mono {score other : ℤ} (hle : score ≤ other) :
    (ofScore score).rank ≤ (ofScore other).rank := by
  unfold ofScore
  split_ifs <;> first | decide | omega

end RiskLevel

/-! ### Scores of more reasons -/

/-- What one of some items has, one of more items has. -/
theorem any_of_subset {α : Type} {items more : List α} (hsub : items ⊆ more) {test : α → Bool}
    (hfound : items.any test = true) : more.any test = true := by
  obtain ⟨item, hitem, htest⟩ := List.any_eq_true.mp hfound
  exact List.any_eq_true.mpr ⟨item, hsub hitem, htest⟩

/-- If there are none of more items, there are none of some. -/
theorem isEmpty_of_subset {α : Type} {items more : List α} (hsub : items ⊆ more)
    (hnone : more.isEmpty = true) : items.isEmpty = true := by
  rw [List.isEmpty_iff] at hnone ⊢
  exact List.subset_nil.mp (hnone ▸ hsub)

namespace RiskFactor

variable {changes moreChanges : List BreakingChange} {changed more : List ChangedFile}
  {coverage moreCovered : CoverageReport}

/-- The worst of some changes is among more changes. -/
theorem breakingScore_mono (hsub : changes ⊆ moreChanges) :
    breakingScore changes ≤ breakingScore moreChanges := by
  have hnone := isEmpty_of_subset hsub
  have hhigh : changes.any (·.severity = .high) = true →
      moreChanges.any (·.severity = .high) = true := any_of_subset hsub
  have hmedium : changes.any (·.severity = .medium) = true →
      moreChanges.any (·.severity = .medium) = true := any_of_subset hsub
  unfold breakingScore
  split_ifs <;> first | omega | tauto

/-- Build configuration among some files is among more files. -/
theorem configScore_mono {paths morePaths : List String} (hsub : paths ⊆ morePaths) :
    configScore paths ≤ configScore morePaths := by
  have hnone := isEmpty_of_subset hsub
  have hbuild : paths.any isBuildConfig = true → morePaths.any isBuildConfig = true :=
    any_of_subset hsub
  unfold configScore
  split_ifs <;> first | omega | tauto

/-- The configuration files of a change set are among those of more changes. -/
theorem configPaths_subset (hsub : changed ⊆ more) : configPaths changed ⊆ configPaths more :=
  List.map_subset _ (List.filter_subset _ hsub)

/-- More changed files have no fewer changed lines. -/
theorem changedLines_mono (hsub : changed.Sublist more) :
    changedLines changed ≤ changedLines more := by
  have hsum (files : List ChangedFile) :
      changedLines files = (files.map fun file => file.additions + file.deletions).sum :=
    List.sum_eq_foldr.symm
  rw [hsum, hsum]
  exact (hsub.map _).sum_le_sum fun _ _ => Nat.zero_le _

/-- A lower share of covered files has no lower score. -/
theorem untestedScore_mono (hratio : coverage.ratio.UpTo 1) (hratio' : moreCovered.ratio.UpTo 1)
    (hsources : coverage.changedSources ≤ moreCovered.changedSources)
    (hle : moreCovered.ratio.value ≤ coverage.ratio.value) :
    (untestedScore coverage).value ≤ (untestedScore moreCovered).value := by
  by_cases hnone : coverage.changedSources = 0
  · have hzero : (untestedScore coverage).value = 0 := by
      rw [untestedScore, if_pos hnone]
      rfl
    exact hzero.trans_le (upTo_untestedScore hratio').nonneg
  · have hrest : 0 ≤ (1 : Binary64).value - coverage.ratio.value := by
      rw [value_one]
      linarith [hratio.le]
    have hless : (sub 1 coverage.ratio).value ≤ (sub 1 moreCovered.ratio).value :=
      Number.round53_mono hrest (by linarith)
    rw [untestedScore, untestedScore, if_neg hnone, if_neg (by omega)]
    refine Number.round53_mono ?_ ?_
    · exact mul_nonneg (Number.round53_nonneg hrest) (by rw [value_hundred]; norm_num)
    · rw [value_hundred]
      linarith

end RiskFactor

/-! ### What a risk is assessed from -/

/-- What the risk of a change set is assessed from. -/
structure RiskBasis where
  changed : List ChangedFile := []
  breaking : List BreakingChange := []
  coverage : CoverageReport := {}
  staleness : StalenessReport := {}
  impact : ImpactGraph := {}

namespace RiskBasis

variable {basis more : RiskBasis}

/-- The assessment, if its factors can be written. -/
def assessment? (basis : RiskBasis) : Option RiskAssessment :=
  RiskAssessment.ofChanges? basis.changed basis.breaking basis.coverage basis.staleness basis.impact

/-- A basis within the bounds of its records, of which the numbers that the factors mention can be
written. -/
structure IsAdmitted (basis : RiskBasis) : Prop where
  ratio : basis.coverage.ratio.UpTo 1
  changedSources_lt : basis.coverage.changedSources < Text.countLimit
  coveredSources_lt : basis.coverage.coveredSources < Text.countLimit
  one_le_line : ∀ reference ∈ basis.staleness.references, 1 ≤ reference.line
  line_lt : ∀ reference ∈ basis.staleness.references, reference.line < Text.countLimit

/-- One basis grows to another one if reasons for a risk are added and the share of covered files
does not rise. -/
structure GrowsTo (basis more : RiskBasis) : Prop where
  changed : basis.changed.Sublist more.changed
  breaking : basis.breaking.Sublist more.breaking
  sources : basis.coverage.changedSources ≤ more.coverage.changedSources
  ratio : more.coverage.ratio.value ≤ basis.coverage.ratio.value
  references : basis.staleness.references.Sublist more.staleness.references
  affected : basis.impact.indirectlyAffected.Sublist more.impact.indirectlyAffected

/-! ### The score in exact numbers -/

/-- The exact share of untested files in percent. -/
def exactUntested (coverage : CoverageReport) : ℚ :=
  if coverage.changedSources = 0 then 0 else (1 - coverage.ratio.value) * 100

/-- The scores of the six factors without rounding. -/
def exactScores (basis : RiskBasis) : List ℚ :=
  [RiskFactor.breakingScore basis.breaking,
    exactUntested basis.coverage,
    RiskFactor.diffSizeScore (RiskFactor.changedLines basis.changed),
    RiskFactor.capped basis.staleness.references.length 20,
    RiskFactor.configScore (RiskFactor.configPaths basis.changed),
    RiskFactor.capped basis.impact.indirectlyAffected.length 10]

/-- The weights of the six factors as fractions. -/
def exactWeights : List ℚ :=
  RiskAssessment.percentages.map fun percentage : ℕ => (percentage : ℚ) / 100

/-- The weighted mean of some scores, rounded once, to the nearest integer, a half going up. -/
def roundedMean (scores : List ℚ) : ℤ :=
  ⌊(List.zipWith (· * ·) scores exactWeights).sum / exactWeights.sum + 1 / 2⌋

/-- The score without any other rounding. -/
def exactScore (basis : RiskBasis) : ℤ := roundedMean basis.exactScores

/-- Scores in one order have weighted sums in that order. -/
theorem sum_zipWith_mono {scores others weights : List ℚ}
    (hweights : ∀ weight ∈ weights, 0 ≤ weight)
    (hscores : List.Forall₂ (· ≤ ·) scores others) :
    (List.zipWith (· * ·) scores weights).sum ≤ (List.zipWith (· * ·) others weights).sum := by
  induction hscores generalizing weights with
  | nil => exact le_rfl
  | cons hfirst _ ih =>
    cases weights with
    | nil => exact le_rfl
    | cons weight weights =>
      rw [List.forall_mem_cons] at hweights
      rw [List.zipWith_cons_cons, List.zipWith_cons_cons, List.sum_cons, List.sum_cons]
      exact add_le_add (mul_le_mul_of_nonneg_right hfirst hweights.1) (ih hweights.2)

/-- No weight is negative. -/
theorem exactWeights_nonneg : ∀ weight ∈ exactWeights, 0 ≤ weight := by
  rw [exactWeights, List.forall_mem_map]
  exact fun percentage _ => div_nonneg (Nat.cast_nonneg percentage) (by norm_num)

/-- The weights add up to one. -/
theorem sum_exactWeights : exactWeights.sum = 1 := by
  norm_num [exactWeights, RiskAssessment.percentages]

/-- Exact scores in one order have means that are rounded in that order. -/
theorem roundedMean_mono {scores others : List ℚ} (hscores : List.Forall₂ (· ≤ ·) scores others) :
    roundedMean scores ≤ roundedMean others := by
  rw [roundedMean, roundedMean, sum_exactWeights, div_one, div_one]
  exact Int.floor_le_floor (add_le_add_left (sum_zipWith_mono exactWeights_nonneg hscores) _)

/-- The exact score of untested files is from zero to a hundred. -/
theorem exactUntested_bounds (hratio : basis.coverage.ratio.UpTo 1) :
    0 ≤ exactUntested basis.coverage ∧ exactUntested basis.coverage ≤ 100 := by
  unfold exactUntested
  split_ifs
  · norm_num
  · constructor <;> linarith [hratio.nonneg, hratio.le]

/-- The exact scores are those of six factors, each from zero to a hundred. -/
theorem exactScores_bounds (hratio : basis.coverage.ratio.UpTo 1) :
    List.Forall₂ (· ≤ ·) (List.replicate 6 0) basis.exactScores ∧
      List.Forall₂ (· ≤ ·) basis.exactScores (List.replicate 6 100) := by
  have huntested := exactUntested_bounds hratio
  have hcast {score : ℕ} (hscore : score ≤ 100) : (score : ℚ) ≤ 100 := by exact_mod_cast hscore
  refine ⟨?_, ?_⟩
  · exact .cons (Nat.cast_nonneg _) <| .cons huntested.1 <| .cons (Nat.cast_nonneg _) <|
      .cons (Nat.cast_nonneg _) <| .cons (Nat.cast_nonneg _) <| .cons (Nat.cast_nonneg _) .nil
  · exact .cons (hcast (RiskFactor.breakingScore_le _)) <| .cons huntested.2 <|
      .cons (hcast (RiskFactor.diffSizeScore_le _)) <|
      .cons (hcast (RiskFactor.capped_le _ _)) <| .cons (hcast (RiskFactor.configScore_le _)) <|
      .cons (hcast (RiskFactor.capped_le _ _)) .nil

/-- The exact score is from zero to a hundred. -/
theorem exactScore_bounds (hratio : basis.coverage.ratio.UpTo 1) :
    0 ≤ basis.exactScore ∧ basis.exactScore ≤ 100 := by
  obtain ⟨hlow, hhigh⟩ := exactScores_bounds hratio
  have hnone : roundedMean (List.replicate 6 0) = 0 := by
    norm_num [roundedMean, exactWeights, RiskAssessment.percentages, List.replicate]
  have hall : roundedMean (List.replicate 6 100) = 100 := by
    norm_num [roundedMean, exactWeights, RiskAssessment.percentages, List.replicate]
  exact ⟨hnone ▸ roundedMean_mono hlow, hall ▸ roundedMean_mono hhigh⟩

/-- A basis that grows has no lower exact scores. -/
theorem GrowsTo.exactScores_le (hmore : more.IsAdmitted) (hgrows : basis.GrowsTo more) :
    List.Forall₂ (· ≤ ·) basis.exactScores more.exactScores := by
  have huntested : exactUntested basis.coverage ≤ exactUntested more.coverage := by
    have hratio := hgrows.ratio
    have hsources := hgrows.sources
    by_cases hnone : basis.coverage.changedSources = 0
    · rw [exactUntested, if_pos hnone]
      exact (exactUntested_bounds hmore.ratio).1
    · rw [exactUntested, exactUntested, if_neg hnone, if_neg (by omega)]
      linarith
  refine .cons ?_ <| .cons huntested <| .cons ?_ <| .cons ?_ <| .cons ?_ <| .cons ?_ .nil
  · exact Nat.cast_le.mpr (RiskFactor.breakingScore_mono hgrows.breaking.subset)
  · exact Nat.cast_le.mpr (RiskFactor.diffSizeScore_mono
      (Int.ofNat_le.mpr (RiskFactor.changedLines_mono hgrows.changed)))
  · exact Nat.cast_le.mpr (RiskFactor.capped_mono hgrows.references.length_le 20)
  · exact Nat.cast_le.mpr (RiskFactor.configScore_mono
      (RiskFactor.configPaths_subset hgrows.changed.subset))
  · exact Nat.cast_le.mpr (RiskFactor.capped_mono hgrows.affected.length_le 10)

/-- The factors of a basis that grows are not above those of the other. -/
theorem GrowsTo.notAbove (hbasis : basis.IsAdmitted) (hmore : more.IsAdmitted)
    (hgrows : basis.GrowsTo more) {risk later : RiskAssessment}
    (hrisk : basis.assessment? = some risk) (hlater : more.assessment? = some later) :
    List.Forall₂ RiskFactor.NotAbove risk.factors later.factors :=
  RiskAssessment.notAbove_of_ofChanges? hbasis.ratio hrisk hlater
    (RiskFactor.breakingScore_mono hgrows.breaking.subset)
    (RiskFactor.untestedScore_mono hbasis.ratio hmore.ratio hgrows.sources hgrows.ratio)
    (RiskFactor.changedLines_mono hgrows.changed) hgrows.references.length_le
    (RiskFactor.configScore_mono (RiskFactor.configPaths_subset hgrows.changed.subset))
    hgrows.affected.length_le

/-- The scores of the factors are the exact ones, but for the share of untested files, which is
rounded. -/
theorem scores_of_assessment? {risk : RiskAssessment} (hrisk : basis.assessment? = some risk) :
    risk.factors.map (·.score.value) =
      basis.exactScores.set 1 (RiskFactor.untestedScore basis.coverage).value := by
  obtain ⟨factors, hfactors, rfl⟩ := Option.map_eq_some_iff.mp hrisk
  obtain ⟨size, hsize, rfl⟩ := Option.map_eq_some_iff.mp hfactors
  obtain ⟨lines, -, hsize⟩ := Option.bind_eq_some_iff.mp hsize
  cases hsize
  have hkept {score : ℕ} (hscore : score ≤ 100) : (Binary64.ofRat score).value = score :=
    value_ofRat_natCast (hscore.trans_lt (by decide))
  simp only [RiskAssessment.ofFactors, List.map_cons, List.map_nil, RiskFactor.breaking,
    RiskFactor.untested, RiskFactor.staleDocs, RiskFactor.configChanges, RiskFactor.impactBreadth,
    hkept (RiskFactor.breakingScore_le _), hkept (RiskFactor.diffSizeScore_le _),
    hkept (RiskFactor.capped_le _ _), hkept (RiskFactor.configScore_le _)]
  rfl

/-- An assessment has six factors, with the weights of the exact score, and the level of its
score. -/
theorem of_assessment? (hbasis : basis.IsAdmitted) {risk : RiskAssessment}
    (hrisk : basis.assessment? = some risk) :
    risk.factors.length = 6 ∧
      risk.factors.map (·.weight) = exactWeights.map Binary64.ofRat ∧
      risk.WithinBounds ∧ risk.level = .ofScore risk.score := by
  have hwithin := RiskAssessment.withinBounds_of_ofChanges? hbasis.ratio hrisk
  obtain ⟨factors, hfactors, rfl⟩ := Option.map_eq_some_iff.mp hrisk
  have hweights := (RiskAssessment.upTo_score_of_factorsOf? hbasis.ratio hfactors).2
  refine ⟨?_, ?_, hwithin, congrArg RiskLevel.ofScore hwithin.exact.symm⟩
  · have hlength : factors.length = 6 := by
      simpa [RiskAssessment.percentages] using congrArg List.length hweights
    exact hlength
  · rw [exactWeights, List.map_map]
    refine hweights.trans (List.map_congr_left fun percentage _ => ?_)
    rw [RiskFactor.percent, Rat.mkRat_eq_div]
    rfl

/-- The risk of a basis within its bounds is assessed exactly if the number of changed lines can be
written. It has six factors, and these and the score are within the bounds of their records, in
exact numbers as well as with every step rounded. Neither score falls, nor its level, where the
basis grows. -/
theorem assessment?_grows (hbasis : basis.IsAdmitted) :
    ((∃ risk, basis.assessment? = some risk) ↔
      RiskFactor.changedLines basis.changed < Text.countLimit) ∧
    (∀ risk, basis.assessment? = some risk →
      risk.factors.length = 6 ∧ risk.WithinBounds ∧ risk.level = .ofScore risk.score ∧
      risk.factors.map (·.score.value) =
        basis.exactScores.set 1 (RiskFactor.untestedScore basis.coverage).value ∧
      risk.factors.map (·.weight) = exactWeights.map Binary64.ofRat) ∧
    (List.Forall₂ (· ≤ ·) (List.replicate 6 0) basis.exactScores ∧
      List.Forall₂ (· ≤ ·) basis.exactScores (List.replicate 6 100) ∧
      0 ≤ basis.exactScore ∧ basis.exactScore ≤ 100) ∧
    ∀ more : RiskBasis, more.IsAdmitted → basis.GrowsTo more →
      (basis.exactScore ≤ more.exactScore ∧
        (RiskLevel.ofScore basis.exactScore).rank ≤ (RiskLevel.ofScore more.exactScore).rank) ∧
      ∀ risk later, basis.assessment? = some risk → more.assessment? = some later →
        risk.score ≤ later.score ∧ risk.level.rank ≤ later.level.rank := by
  obtain ⟨hlow, hhigh⟩ := exactScores_bounds hbasis.ratio
  refine ⟨RiskAssessment.exists_ofChanges?_iff _ _ _ _, fun risk hrisk => ?_,
    ⟨hlow, hhigh, exactScore_bounds hbasis.ratio⟩, fun more hmore hgrows => ⟨?_, ?_⟩⟩
  · obtain ⟨hsix, hweights, hwithin, hlevel⟩ := of_assessment? hbasis hrisk
    exact ⟨hsix, hwithin, hlevel, scores_of_assessment? hrisk, hweights⟩
  · have hscore := roundedMean_mono (hgrows.exactScores_le hmore)
    exact ⟨hscore, RiskLevel.rank_ofScore_mono hscore⟩
  · intro risk later hrisk hlater
    obtain ⟨-, -, hwithin, hlevel⟩ := of_assessment? hbasis hrisk
    obtain ⟨-, -, hwithin', hlevel'⟩ := of_assessment? hmore hlater
    obtain ⟨hscore, -⟩ := RiskAssessment.score_le_of_notAbove hwithin hwithin'
      (hgrows.notAbove hbasis hmore hrisk hlater)
    rw [hlevel, hlevel']
    exact ⟨hscore, RiskLevel.rank_ofScore_mono (Int.ofNat_le.mpr hscore)⟩

/-- A changed source file. -/
def sourceChange : ChangedFile where
  path := "a.ts"
  status := .modified
  additions := 40
  deletions := 20
  category := .source

/-- A new file that says how to build. -/
def buildChange : ChangedFile where
  path := "vite.config.ts"
  status := .added
  additions := 50
  category := .config

/-- A change of the type of an export. -/
def typeChange : BreakingChange where
  filePath := "a.ts"
  kind := .changedType
  symbolName := "T"
  before := "interface T"
  after := "type T"
  severity := .medium

/-- The source file changes together with its test. -/
def testedBasis : RiskBasis where
  changed := [sourceChange]
  coverage := { changedSources := 1, coveredSources := 1 }

/-- The source file changes without its test, an exported type with it, and so does the build. -/
def untestedBasis : RiskBasis where
  changed := [sourceChange, buildChange]
  breaking := [typeChange]
  coverage := { changedSources := 1, ratio := 0 }
  staleness := { references := [⟨"README.md", 3, "T", "removed"⟩] }
  impact := { indirectlyAffected := ["b.ts"] }

/-- The risk grows with the added reasons. -/
theorem assessment?_grows_untested :
    testedBasis.IsAdmitted ∧ untestedBasis.IsAdmitted ∧ testedBasis.GrowsTo untestedBasis ∧
      ∃ risk later, testedBasis.assessment? = some risk ∧
        untestedBasis.assessment? = some later ∧ risk.score ≤ later.score ∧
        risk.level.rank ≤ later.level.rank ∧ risk.score = 0 ∧ later.score = 64 := by
  have htested : testedBasis.IsAdmitted :=
    ⟨⟨by decide +kernel, by decide +kernel⟩, Text.lt_countLimit (by decide),
      Text.lt_countLimit (by decide), List.forall_mem_nil _, List.forall_mem_nil _⟩
  have huntested : untestedBasis.IsAdmitted := by
    refine ⟨⟨by decide +kernel, by decide +kernel⟩, Text.lt_countLimit (by decide),
      Text.lt_countLimit (by decide), by decide, fun reference hreference => ?_⟩
    rw [List.mem_singleton.mp hreference]
    exact Text.lt_countLimit (by decide)
  have hgrows : testedBasis.GrowsTo untestedBasis :=
    ⟨(List.nil_sublist _).cons_cons _, List.nil_sublist _, le_rfl, by decide +kernel,
      List.nil_sublist _, List.nil_sublist _⟩
  obtain ⟨-, -, -, hgrowing⟩ := assessment?_grows htested
  obtain ⟨-, hscores⟩ := hgrowing untestedBasis huntested hgrows
  have hscore : testedBasis.assessment?.map RiskAssessment.score = some 0 := by decide +kernel
  have hscore' : untestedBasis.assessment?.map RiskAssessment.score = some 64 := by decide +kernel
  obtain ⟨risk, hrisk, hzero⟩ := Option.map_eq_some_iff.mp hscore
  obtain ⟨later, hlater, hmost⟩ := Option.map_eq_some_iff.mp hscore'
  obtain ⟨hle, hlevel⟩ := hscores risk later hrisk hlater
  exact ⟨htested, huntested, hgrows, risk, later, hrisk, hlater, hle, hlevel, hzero, hmost⟩

/-- A change of one file with as many lines added, and as many removed, as can be written. -/
def endlessBasis : RiskBasis where
  changed := [{
    path := "a.ts"
    status := .modified
    additions := Text.countLimit - 1
    deletions := Text.countLimit - 1
    category := .source }]

/-- Its lines are too many together for their number to be written, so that no risk is assessed. -/
theorem assessment?_endless :
    endlessBasis.IsAdmitted ∧ (∀ file ∈ endlessBasis.changed, file.additions < Text.countLimit ∧
      file.deletions < Text.countLimit) ∧ endlessBasis.assessment? = none := by
  have hlimit : 1 < Text.countLimit := Text.lt_countLimit (by decide)
  have hlines : RiskFactor.changedLines endlessBasis.changed =
      Text.countLimit - 1 + (Text.countLimit - 1) := rfl
  refine ⟨⟨⟨by decide +kernel, by decide +kernel⟩, Text.lt_countLimit (by decide),
    Text.lt_countLimit (by decide), List.forall_mem_nil _, List.forall_mem_nil _⟩, ?_, ?_⟩
  · rw [endlessBasis]
    simp only [List.forall_mem_singleton]
    omega
  · rw [Option.eq_none_iff_forall_ne_some]
    intro risk hrisk
    have hwritten := (RiskAssessment.exists_ofChanges?_iff _ _ _ _).mp ⟨risk, hrisk⟩
    omega

end RiskBasis

end ChangeImpact
