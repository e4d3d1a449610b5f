import ChangeImpact.Proofs.CompletedAnalysis
import ChangeImpact.Proofs.Consumers
import ChangeImpact.Proofs.RiskOrder

/-!
# Skipping parts of an analysis

An analysis may be asked to skip its breaking changes, its coverage or its documentation. To skip
more of them makes no difference to the change set, to the impact graph and to the parts that are
still asked for. A skipped part counts as empty, so that no factor of the risk gets a higher score.
-/

namespace ChangeImpact

/-- The options with some more parts skipped. -/
def AnalysisOptions.alsoSkipping (options : AnalysisOptions) (breaking coverage docs : Bool) :
    AnalysisOptions :=
  { options with
    skipBreaking := options.skipBreaking || breaking
    skipCoverage := options.skipCoverage || coverage
    skipDocs := options.skipDocs || docs }

namespace Analysis

variable {repo : Git.Repository} {options : AnalysisOptions} {config : Option ProjectConfig}
  {cache : Option MapCache} {after : MapCache} {input : Input} {analysis second : Analysis}
  {map : ReverseMap}

/-- Breaking changes are what they were, unless they are skipped now. -/
theorem breakingPart_alsoSkipping (breaking coverage docs : Bool) :
    breakingPart repo (options.alsoSkipping breaking coverage docs) input map =
      if breaking then [] else breakingPart repo options input map := by
  unfold breakingPart AnalysisOptions.alsoSkipping
  cases breaking <;> simp

/-- The coverage is what it was, unless it is skipped now. -/
theorem coveragePart_alsoSkipping (breaking coverage docs : Bool) :
    coveragePart repo (options.alsoSkipping breaking coverage docs) input =
      if coverage then .ok { ratio := 0 } else coveragePart repo options input := by
  unfold coveragePart AnalysisOptions.alsoSkipping
  cases coverage <;> simp

/-- The documentation is what it was, unless it is skipped now. -/
theorem stalenessPart_alsoSkipping (breaking coverage docs : Bool) :
    stalenessPart repo (options.alsoSkipping breaking coverage docs) input =
      if docs then {} else stalenessPart repo options input := by
  unfold stalenessPart AnalysisOptions.alsoSkipping
  cases docs <;> simp

/-- What is skipped has the lowest scores. -/
theorem notAbove_of_ofInput {breaking coverage docs : Bool}
    (hresult : ofInput repo options input map map = .ok analysis)
    (hsecond : ofInput repo (options.alsoSkipping breaking coverage docs) input map map =
      .ok second) :
    List.Forall₂ RiskFactor.NotAbove second.riskScore.factors analysis.riskScore.factors := by
  obtain ⟨hcoverage, hrisk, -⟩ := eq_of_ofInput hresult
  obtain ⟨hcoverage', hrisk', -⟩ := eq_of_ofInput hsecond
  refine RiskAssessment.notAbove_of_ofChanges? (upTo_ratio_of_coveragePart hcoverage') hrisk' hrisk
    ?_ ?_ le_rfl ?_ le_rfl le_rfl
  · rw [breakingPart_alsoSkipping]
    split
    · exact Nat.zero_le _
    · exact Nat.le_refl _
  · rw [coveragePart_alsoSkipping] at hcoverage'
    split at hcoverage'
    · rw [← Except.ok.inj hcoverage']
      have hscore := (RiskFactor.upTo_untestedScore (upTo_ratio_of_coveragePart hcoverage)).nonneg
      have hnone : (RiskFactor.untestedScore { ratio := 0 }).value = 0 := by decide
      rwa [hnone]
    · rw [hcoverage] at hcoverage'
      rw [Except.ok.inj hcoverage']
  · rw [stalenessPart_alsoSkipping]
    split
    · exact Nat.zero_le _
    · exact Nat.le_refl _

/-- An analysis that goes well still does if more of it is skipped. The change set, the impact graph
and the parts that are not skipped now are the same, and the score of the risk is no higher, be the
weighted mean taken as it is, with every step rounded, or exactly. -/
theorem skipping_of_runCached (breaking coverage docs : Bool)
    (hrun : runCached repo options config cache = .ok (.ok analysis, after)) :
    ∃ second later, runCached repo (options.alsoSkipping breaking coverage docs) config cache =
        .ok (.ok second, later) ∧
      second.changedFiles = analysis.changedFiles ∧
      second.impactGraph = analysis.impactGraph ∧
      (breaking = false → second.breakingChanges = analysis.breakingChanges) ∧
      (coverage = false → second.testCoverage = analysis.testCoverage) ∧
      (docs = false → second.docStaleness = analysis.docStaleness) ∧
      second.riskScore.score ≤ analysis.riskScore.score ∧
      RiskAssessment.exactScore second.riskScore.factors ≤
        RiskAssessment.exactScore analysis.riskScore.factors := by
  obtain ⟨input, hinput, hresult⟩ := exists_input_of_runCached hrun
  have hasked : Analysis.input repo (options.alsoSkipping breaking coverage docs).baseBranch
      (options.alsoSkipping breaking coverage docs).headBranch config = .ok input := hinput
  obtain ⟨⟨report, hreport⟩, hlines⟩ := (exists_runCached_iff options cache hinput).mp ⟨_, _, hrun⟩
  have hknown : ∃ report,
      coveragePart repo (options.alsoSkipping breaking coverage docs) input = .ok report := by
    rw [coveragePart_alsoSkipping]
    split
    · exact ⟨_, rfl⟩
    · exact ⟨report, hreport⟩
  obtain ⟨second, later, hrun'⟩ := (exists_runCached_iff _ cache hasked).mpr ⟨hknown, hlines⟩
  have hresult' := hrun'
  rw [runCached_of_input _ hasked] at hresult'
  obtain ⟨hsecond, -⟩ := Prod.mk.inj (Except.ok.inj hresult')
  rw [givenMap_eq] at hsecond hresult
  obtain ⟨hcoverage, -, hchanged, hbreaking, hstaleness, himpact⟩ := eq_of_ofInput hresult
  obtain ⟨hcoverage', -, hchanged', hbreaking', hstaleness', himpact'⟩ := eq_of_ofInput hsecond
  refine ⟨second, later, hrun', hchanged'.trans hchanged.symm, himpact'.trans himpact.symm, ?_, ?_,
    ?_, RiskAssessment.score_le_of_notAbove (withinBounds_of_ofInput hsecond).risk
      (withinBounds_of_ofInput hresult).risk (notAbove_of_ofInput hresult hsecond)⟩
  · rintro rfl
    rw [hbreaking', hbreaking, breakingPart_alsoSkipping, if_neg Bool.false_ne_true]
  · rintro rfl
    rw [coveragePart_alsoSkipping, if_neg Bool.false_ne_true, hcoverage] at hcoverage'
    exact (Except.ok.inj hcoverage').symm
  · rintro rfl
    rw [hstaleness', hstaleness, stalenessPart_alsoSkipping, if_neg Bool.false_ne_true]

/-- An analysis of the breaking changes, the documentation and the impact. -/
def uncoveredOptions : AnalysisOptions := { repoPath := "/work", skipCoverage := true }

/-- The score of a repository whose head drops an export is found from the parts asked for. -/
theorem score_narrowedRepository (breaking docs : Bool) (hrun : runCached narrowedRepository
      (uncoveredOptions.alsoSkipping breaking false docs) none none = .ok (.ok analysis, after)) :
    RiskAssessment.ofChanges? narrowedInput.changed
      (breakingPart narrowedRepository (uncoveredOptions.alsoSkipping breaking false docs)
        narrowedInput ⟨["app.ts", "lib.ts"], [⟨"app.ts", "lib.ts"⟩]⟩) { ratio := 0 }
      (stalenessPart narrowedRepository (uncoveredOptions.alsoSkipping breaking false docs)
        narrowedInput)
      (.ofChanges ⟨["app.ts", "lib.ts"], [⟨"app.ts", "lib.ts"⟩]⟩ narrowedInput.changed 3) =
        some analysis.riskScore := by
  rw [runCached_of_input (uncoveredOptions.alsoSkipping breaking false docs)
    input_narrowedRepository, givenMap_none, scannedMap_narrowedRepository] at hrun
  obtain ⟨hresult, -⟩ := Prod.mk.inj (Except.ok.inj hrun)
  obtain ⟨hcoverage, hrisk, -⟩ := eq_of_ofInput hresult
  have hskipped : coveragePart narrowedRepository
      (uncoveredOptions.alsoSkipping breaking false docs) narrowedInput = .ok { ratio := 0 } := by
    rw [coveragePart_alsoSkipping]
    rfl
  rw [Except.ok.inj (hskipped.symm.trans hcoverage)]
  exact hrisk

/-- Without the breaking changes and the documentation, the one importer is what is left to
score. -/
theorem skipping_of_runCached_narrowed :
    ∃ first after second later,
      runCached narrowedRepository uncoveredOptions none none = .ok (.ok first, after) ∧
      runCached narrowedRepository (uncoveredOptions.alsoSkipping true false true) none none =
        .ok (.ok second, later) ∧
      second.impactGraph = first.impactGraph ∧ second.testCoverage = first.testCoverage ∧
      first.riskScore.score = 31 ∧ second.riskScore.score = 1 := by
  obtain ⟨first, after, hfirst⟩ :=
    (exists_runCached_iff uncoveredOptions none input_narrowedRepository).mpr
      ⟨⟨_, rfl⟩, Text.lt_countLimit (by decide)⟩
  obtain ⟨second, later, hsecond, -, himpact, -, hcoverage, -⟩ :=
    skipping_of_runCached true false true hfirst
  have hrisk := congrArg (Option.map RiskAssessment.score)
    (score_narrowedRepository false false hfirst)
  have hrisk' := congrArg (Option.map RiskAssessment.score)
    (score_narrowedRepository true true hsecond)
  refine ⟨first, after, second, later, hfirst, hsecond, himpact, hcoverage rfl, ?_, ?_⟩
  · exact Option.some.inj (hrisk.symm.trans (by decide +kernel))
  · exact Option.some.inj (hrisk'.symm.trans (by decide +kernel))

end Analysis

end ChangeImpact
