import ChangeImpact.Analyze
import ChangeImpact.Proofs.CacheHistory
import ChangeImpact.Proofs.Outcome

/-!
# Runs of an analysis

A run that succeeds has an input, is given one reverse dependency map, whichever cache it asks, and
puts its parts together. Without a cache of the caller's, the map is that of a scan of the
repository.
-/

namespace ChangeImpact

namespace MapCache

/-- Two requests, the second made before the first is answered, have the answer of one: either the
map is stored, or both wait for the same scan. -/
theorem getTwice_answers (cache : MapCache) (tree : Directory) (root : Root) :
    (cache.getTwice tree root).1 = (cache.get tree root).1 ∧
      (cache.getTwice tree root).2.1 = (cache.get tree root).1 := by
  cases hstored : cache.stored? root with
  | some map =>
    rw [getTwice, get, ask_of_stored hstored]
    simp only [ask_of_stored hstored, and_self]
  | none =>
    cases hpending : cache.pending.lookup root.key with
    | some stamp =>
      rw [getTwice, get, ask_of_pending hstored hpending]
      simp only [ask_of_pending hstored hpending, if_true, and_self]
    | none =>
      have hfirst := ask_of_absent hstored hpending
      have hsecond : (cache.ask root).2.ask root =
          (.waiting cache.nextStamp, (cache.ask root).2) := by
        rw [hfirst]
        exact ask_of_pending hstored List.lookup_cons_self
      rw [hfirst] at hsecond
      rw [getTwice, get, hfirst]
      simp only [hsecond, if_true, and_self]

end MapCache

/-- Where the file system answers, a step of an analysis goes on with the answer. -/
theorem ofFiles_eq_ok_iff {α : Type} {answer : Except FileFault α} {value : α} :
    ofFiles answer = .ok value ↔ answer = .ok value := by
  rw [ofFiles, mapError_eq_ok_iff]

/-- Where git answers, a step of an analysis goes on with the answer. -/
theorem ofGit_eq_ok_iff {α : Type} {answer : Except Git.Fault α} {value : α} :
    ofGit answer = .ok value ↔ answer = .ok value := by
  rw [ofGit, mapError_eq_ok_iff]

/-- A count is written if it does not have too many digits. -/
theorem Text.exists_countText?_iff {count : ℕ} :
    (∃ text, Text.countText? count = some text) ↔ count < Text.countLimit := by
  rw [Text.countText?]
  split <;> simp [*]

/-- A count of a single digit is below a limit of one or more digits. -/
theorem Number.lt_pow10 {count : ℕ} (hcount : count < 10) {digits : ℕ} (hdigits : digits ≠ 0) :
    count < pow10 digits :=
  Nat.lt_of_lt_of_le hcount (Nat.le_pow (Nat.pos_of_ne_zero hdigits))

/-- A count of a single digit is written. -/
theorem Text.lt_countLimit {count : ℕ} (hcount : count < 10) : count < Text.countLimit := by
  delta Text.countLimit
  exact Number.lt_pow10 hcount (by decide)

/-- A total of sums is at least the total of the first and of the second summands. -/
theorem Number.total_map_le_total_map {α : Type} {f g : α → ℕ} (hle : ∀ a, f a ≤ g a)
    (items : List α) : total (items.map f) ≤ total (items.map g) := by
  induction items with
  | nil => exact Nat.le_refl _
  | cons a items ih => exact Nat.add_le_add (hle a) ih

/-- There is a risk assessment if the number of changed lines can be written. -/
theorem RiskAssessment.exists_ofChanges?_iff {changed : List ChangedFile}
    (breaking : List BreakingChange) (coverage : CoverageReport) (staleness : StalenessReport)
    (impact : ImpactGraph) :
    (∃ risk, ofChanges? changed breaking coverage staleness impact = some risk) ↔
      RiskFactor.changedLines changed < Text.countLimit := by
  rw [← Text.exists_countText?_iff, ofChanges?, factorsOf?, RiskFactor.diffSize?]
  cases Text.countText? (RiskFactor.changedLines changed) <;> simp

/-- There is a summary where the number of changed lines can be written. -/
theorem exists_summarize? {changed : List ChangedFile}
    (hlines : RiskFactor.changedLines changed < Text.countLimit)
    (breaking : List BreakingChange) (coverage : CoverageReport) (risk : RiskAssessment) :
    ∃ summary, summarize? changed breaking coverage risk = some summary := by
  have hadded : Number.total (changed.map (·.additions)) ≤ RiskFactor.changedLines changed :=
    Number.total_map_le_total_map (fun file => Nat.le_add_right _ _) changed
  have hdeleted : Number.total (changed.map (·.deletions)) ≤ RiskFactor.changedLines changed :=
    Number.total_map_le_total_map (fun file => Nat.le_add_left _ _) changed
  obtain ⟨additions, hadditions⟩ :=
    Text.exists_countText?_iff.mpr (Nat.lt_of_le_of_lt hadded hlines)
  obtain ⟨deletions, hdeletions⟩ :=
    Text.exists_countText?_iff.mpr (Nat.lt_of_le_of_lt hdeleted hlines)
  simp [summarize?, hadditions, hdeletions]

namespace Analysis

variable {repo : Git.Repository} {options : AnalysisOptions} {config : Option ProjectConfig}
  {cache : Option MapCache} {after : MapCache} {input : Input} {analysis : Analysis}
  {breakingMap impactMap : ReverseMap}

/-- The map that a scan for an analysis makes. -/
def scannedMap (repo : Git.Repository) (input : Input) : ReverseMap :=
  .ofDirectory (repo.root.resolved.directory repo.tree) input.config.scan

/-- The cache that an analysis asks: that of the caller, or a new one. -/
def cacheOf (input : Input) (cache : Option MapCache) : MapCache :=
  cache.getD { config := input.config.scan }

/-- The map that an analysis is given. -/
def givenMap (repo : Git.Repository) (options : AnalysisOptions) (input : Input)
    (cache : Option MapCache) : ReverseMap :=
  (maps repo options (cacheOf input cache)).2.1

/-- The breaking changes and the impact are given the same map, whatever is skipped. -/
theorem maps_eq (repo : Git.Repository) (options : AnalysisOptions) (cache : MapCache) :
    (maps repo options cache).1 = (cache.get repo.tree repo.root).1.map ∧
      (maps repo options cache).2.1 = (cache.get repo.tree repo.root).1.map := by
  unfold maps
  split
  · exact ⟨rfl, rfl⟩
  · obtain ⟨hfirst, hsecond⟩ := cache.getTwice_answers repo.tree repo.root
    exact ⟨congrArg StampedMap.map hfirst, congrArg StampedMap.map hsecond⟩

/-- The map that an analysis is given does not depend on what is skipped. -/
theorem givenMap_eq (options : AnalysisOptions) (cache : Option MapCache) :
    givenMap repo options input cache =
      ((cacheOf input cache).get repo.tree repo.root).1.map :=
  (maps_eq repo options (cacheOf input cache)).2

/-- A new cache gives the map of a scan. -/
theorem givenMap_none : givenMap repo options input none = scannedMap repo input := by
  unfold givenMap cacheOf maps
  split
  · rfl
  · simp only [Option.getD_none]
    rw [MapCache.getTwice_eq rfl]
    rfl

/-- An analysis with an input is that of the input, with the map that the cache gives. -/
theorem runCached_of_input (options : AnalysisOptions)
    (hinput : Analysis.input repo options.baseBranch options.headBranch config = .ok input) :
    runCached repo options config cache =
      .ok (ofInput repo options input (givenMap repo options input cache)
          (givenMap repo options input cache),
        (maps repo options (cacheOf input cache)).2.2) := by
  rw [runCached, hinput]
  change Except.ok (ofInput repo options input (maps repo options (cacheOf input cache)).1 _, _) = _
  rw [(maps_eq repo options (cacheOf input cache)).1,
    ← (maps_eq repo options (cacheOf input cache)).2]
  rfl

/-- An analysis that goes well has an input, whose analysis it is. -/
theorem exists_input_of_runCached
    (hrun : runCached repo options config cache = .ok (.ok analysis, after)) :
    ∃ input, Analysis.input repo options.baseBranch options.headBranch config = .ok input ∧
      ofInput repo options input (givenMap repo options input cache)
        (givenMap repo options input cache) = .ok analysis := by
  cases hinput : Analysis.input repo options.baseBranch options.headBranch config with
  | error failure =>
    rw [runCached, hinput] at hrun
    cases hrun
  | ok input =>
    rw [runCached_of_input options hinput] at hrun
    obtain ⟨hresult, -⟩ := Prod.mk.inj (Except.ok.inj hrun)
    exact ⟨input, rfl, hresult⟩

/-- An analysis by itself is one without a cache of the caller's. -/
theorem exists_runCached_of_run (hrun : run repo options config = .ok analysis) :
    ∃ after, runCached repo options config none = .ok (.ok analysis, after) := by
  unfold run at hrun
  cases hcached : runCached repo options config none with
  | error failure => simp [hcached, bind, Except.bind] at hrun
  | ok found =>
    obtain ⟨result, after⟩ := found
    rw [hcached] at hrun
    have hresult : result = .ok analysis := hrun
    exact ⟨after, by rw [hresult]⟩

/-- An analysis by itself that goes well has an input, whose analysis it is, with the map of a
scan. -/
theorem exists_input_of_run (hrun : run repo options config = .ok analysis) :
    ∃ input, Analysis.input repo options.baseBranch options.headBranch config = .ok input ∧
      ofInput repo options input (scannedMap repo input) (scannedMap repo input) =
        .ok analysis := by
  obtain ⟨after, hcached⟩ := exists_runCached_of_run hrun
  obtain ⟨input, hinput, hresult⟩ := exists_input_of_runCached hcached
  rw [givenMap_none] at hresult
  exact ⟨input, hinput, hresult⟩

/-- An analysis by itself is that of its input, with the map of a scan. -/
theorem run_of_input (options : AnalysisOptions)
    (hinput : Analysis.input repo options.baseBranch options.headBranch config = .ok input) :
    run repo options config =
      ofInput repo options input (scannedMap repo input) (scannedMap repo input) := by
  rw [run, runCached_of_input options hinput, givenMap_none]
  rfl

/-- The parts of a successful analysis of an input. -/
theorem eq_of_ofInput (hresult : ofInput repo options input breakingMap impactMap = .ok analysis) :
    coveragePart repo options input = .ok analysis.testCoverage ∧
    RiskAssessment.ofChanges? input.changed (breakingPart repo options input breakingMap)
        analysis.testCoverage (stalenessPart repo options input)
        (.ofChanges impactMap input.changed input.config.maxDepth) = some analysis.riskScore ∧
    analysis.changedFiles = input.changed ∧
    analysis.breakingChanges = breakingPart repo options input breakingMap ∧
    analysis.docStaleness = stalenessPart repo options input ∧
    analysis.impactGraph = .ofChanges impactMap input.changed input.config.maxDepth := by
  unfold ofInput at hresult
  cases hcoverage : coveragePart repo options input with
  | error fault => simp [hcoverage, ofFiles, Except.mapError, bind, Except.bind] at hresult
  | ok coverage =>
    simp only [hcoverage, ofFiles, Except.mapError, bind, Except.bind] at hresult
    generalize hrisk : RiskAssessment.ofChanges? input.changed _ coverage _ _ = found at hresult
    cases found with
    | none => cases hresult
    | some risk =>
      simp only at hresult
      generalize summarize? input.changed _ coverage risk = found at hresult
      cases found with
      | none => cases hresult
      | some summary =>
        cases hresult
        exact ⟨rfl, hrisk, rfl, rfl, rfl, rfl⟩

/-- An analysis of an input fails only where the coverage does, or where there are too many changed
lines for their number to be written. -/
theorem exists_ofInput_iff :
    (∃ analysis, ofInput repo options input breakingMap impactMap = .ok analysis) ↔
      (∃ coverage, coveragePart repo options input = .ok coverage) ∧
        RiskFactor.changedLines input.changed < Text.countLimit := by
  constructor
  · rintro ⟨analysis, hresult⟩
    obtain ⟨hcoverage, hrisk, -⟩ := eq_of_ofInput hresult
    exact ⟨⟨_, hcoverage⟩, (RiskAssessment.exists_ofChanges?_iff _ _ _ _).mp ⟨_, hrisk⟩⟩
  · rintro ⟨⟨coverage, hcoverage⟩, hlines⟩
    obtain ⟨risk, hrisk⟩ := (RiskAssessment.exists_ofChanges?_iff
      (breakingPart repo options input breakingMap) coverage (stalenessPart repo options input)
      (.ofChanges impactMap input.changed input.config.maxDepth)).mpr hlines
    obtain ⟨summary, hsummary⟩ := exists_summarize? hlines
      (breakingPart repo options input breakingMap) coverage risk
    unfold ofInput
    simp only [hcoverage, ofFiles, Except.mapError, bind, Except.bind, hrisk, hsummary]
    exact ⟨_, rfl⟩

/-- An analysis by itself with an input goes well under the same condition. -/
theorem exists_run_iff (options : AnalysisOptions)
    (hinput : Analysis.input repo options.baseBranch options.headBranch config = .ok input) :
    (∃ analysis, run repo options config = .ok analysis) ↔
      (∃ coverage, coveragePart repo options input = .ok coverage) ∧
        RiskFactor.changedLines input.changed < Text.countLimit := by
  rw [run_of_input options hinput]
  exact exists_ofInput_iff

/-- An analysis with an input goes well under the same condition, whichever cache it asks. -/
theorem exists_runCached_iff (options : AnalysisOptions) (cache : Option MapCache)
    (hinput : Analysis.input repo options.baseBranch options.headBranch config = .ok input) :
    (∃ analysis after, runCached repo options config cache = .ok (.ok analysis, after)) ↔
      (∃ coverage, coveragePart repo options input = .ok coverage) ∧
        RiskFactor.changedLines input.changed < Text.countLimit := by
  rw [runCached_of_input options hinput]
  simp only [Except.ok.injEq, Prod.mk.injEq, exists_and_left, exists_eq', and_true]
  exact exists_ofInput_iff

end Analysis

end ChangeImpact
