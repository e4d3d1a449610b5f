import ChangeImpact.Proofs.CompletedAnalysis
import ChangeImpact.Proofs.TestPlaces

/-!
# Gaps in the coverage

A report on the coverage of a change set accounts for every changed source file once: the file is
covered, or it leaves a gap with those of its expected tests that exist. Gaps are in the order of
the change set, and more changed tests only close gaps. There is a report for every change set of
which all expected tests can be looked up, and for no other.
-/

namespace ChangeImpact

open ChangeImpact.Path

/-- The changed tests are the changed files that are classified as tests. -/
theorem mem_testPaths {changed : List ChangedFile} {path : String} :
    path ∈ testPaths changed ↔
      ∃ file ∈ changed, file.category = .test ∧ file.path = path := by
  simp [testPaths, and_assoc]

namespace Coverage

variable {root : Root} {tree : Directory} {changed more : List ChangedFile} {source : String}

/-- The expected tests of a source file that exist, in the order in which they are expected. -/
def standingTests (root : Root) (tree : Directory) (source : String) : List String :=
  (candidates source).filter fun path => isFile root tree path = .ok true

/-- The gap that a source file leaves if none of its tests is changed. -/
def gapOf (root : Root) (tree : Directory) (source : String) : CoverageGap where
  sourceFile := source
  expectedTests := standingTests root tree source
  testExists := !(standingTests root tree source).isEmpty
  testChanged := false

/-- A source file is covered by a change set if one of its expected tests exists and has the path of
a changed test. -/
def IsCovered (root : Root) (tree : Directory) (changed : List ChangedFile) (source : String) :
    Prop :=
  ∃ path ∈ candidates source, isFile root tree path = .ok true ∧
    ∃ file ∈ changed, file.category = .test ∧ file.path = path

instance : Decidable (IsCovered root tree changed source) :=
  inferInstanceAs (Decidable (∃ path ∈ candidates source, _ ∧ ∃ file ∈ changed, _))

/-- More changes do not uncover a source file. -/
theorem IsCovered.append (hcovered : IsCovered root tree changed source)
    (more : List ChangedFile) : IsCovered root tree (changed ++ more) source := by
  obtain ⟨path, hpath, hstands, file, hfile, htest⟩ := hcovered
  exact ⟨path, hpath, hstands, file, List.mem_append_left more hfile, htest⟩

/-- A source file is covered if one of its standing tests is among the changed tests. -/
theorem any_standingTests_iff :
    (standingTests root tree source).any (testPaths changed).contains = true ↔
      IsCovered root tree changed source := by
  simp only [List.any_eq_true, standingTests, List.mem_filter, decide_eq_true_iff,
    List.contains_iff_mem, mem_testPaths, IsCovered, and_assoc]

/-- A source file whose expected tests can be looked up is covered or leaves its gap. -/
theorem gap?_eq_ok (hlookup : ∀ path ∈ candidates source,
      isFile root tree path ≠ .error .nameTooLong) :
    gap? root tree (testPaths changed) source =
      .ok (if IsCovered root tree changed source then none else some (gapOf root tree source)) := by
  have hanswer : ∀ path ∈ candidates source,
      isFile root tree path = .ok (decide (isFile root tree path = .ok true)) := by
    intro path hpath
    obtain ⟨found, hfound⟩ := exists_isFile_iff.mpr (hlookup path hpath)
    cases found <;> simp [hfound]
  have hexisting : existingTests root tree source = .ok (standingTests root tree source) :=
    filterM_eq_ok hanswer
  rw [gap?, hexisting]
  simp only [bind, Except.bind, pure, Except.pure, any_standingTests_iff]
  rfl

end Coverage

namespace CoverageReport

open Coverage

variable {root : Root} {tree : Directory} {changed : List ChangedFile} {report : CoverageReport}

/-- The share of covered files as an exact number. -/
def share (report : CoverageReport) : ℚ :=
  if report.changedSources = 0 then 1 else report.coveredSources / report.changedSources

/-- The report on a change set of which all expected tests can be looked up. -/
theorem ofChanges_eq (hlookup : ∀ source ∈ sourcePaths changed, ∀ path ∈ candidates source,
      isFile root tree path ≠ .error .nameTooLong) :
    ofChanges root tree changed = .ok {
      changedSources := (sourcePaths changed).length
      coveredSources := (sourcePaths changed).countP fun source =>
        IsCovered root tree changed source
      ratio := if sourcePaths changed = [] then 1 else
        Binary64.ofRat (mkRat ((sourcePaths changed).countP fun source =>
          IsCovered root tree changed source) (sourcePaths changed).length)
      gaps := ((sourcePaths changed).filter fun source =>
        ¬ IsCovered root tree changed source).map (gapOf root tree) } := by
  have houtcomes : (sourcePaths changed).mapM (gap? root tree (testPaths changed)) = .ok
      ((sourcePaths changed).map fun source =>
        if IsCovered root tree changed source then none else some (gapOf root tree source)) :=
    mapM_eq_ok fun source hsource => gap?_eq_ok (hlookup source hsource)
  have hcovered : ((sourcePaths changed).map fun source =>
        if IsCovered root tree changed source then none
        else some (gapOf root tree source)).countP Option.isNone =
      (sourcePaths changed).countP fun source => IsCovered root tree changed source := by
    rw [List.countP_map]
    refine List.countP_congr fun source _ => ?_
    by_cases h : IsCovered root tree changed source <;> simp [h]
  have hgaps : ((sourcePaths changed).map fun source =>
        if IsCovered root tree changed source then none
        else some (gapOf root tree source)).filterMap id =
      ((sourcePaths changed).filter fun source =>
        ¬ IsCovered root tree changed source).map (gapOf root tree) := by
    rw [List.filterMap_map, ← List.filterMap_eq_map, List.filterMap_filter]
    refine List.filterMap_congr fun source _ => ?_
    by_cases h : IsCovered root tree changed source <;> simp [h]
  rw [ofChanges, houtcomes]
  dsimp only [bind, Except.bind, pure, Except.pure]
  rw [hcovered, hgaps]
  split
  case isTrue hempty =>
    rw [List.isEmpty_iff] at hempty
    simp [hempty]
  case isFalse hempty =>
    rw [List.isEmpty_iff] at hempty
    simp [hempty]

/-- More changed tests do not change which sources changed. -/
theorem sourcePaths_append {tests : List ChangedFile}
    (htests : ∀ file ∈ tests, file.category = .test) (changed : List ChangedFile) :
    sourcePaths (changed ++ tests) = sourcePaths changed := by
  have hnone : tests.filter (·.category = .source) = [] := by
    rw [List.filter_eq_nil_iff]
    intro file hfile
    simp [htests file hfile]
  rw [sourcePaths, List.filter_append, hnone, List.append_nil, sourcePaths]

/-- There is a report on the coverage of a change set exactly if all expected tests of its sources
can be looked up. It accounts for every source once: those without a standing, changed test are its
gaps, in the order of the change set and each with its standing tests, and the others are counted as
covered. Its ratio is the number nearest to the exact share, and more changed tests add no gap. -/
theorem accounts_ofChanges (root : Root) (tree : Directory) (changed : List ChangedFile) :
    ((∃ report, ofChanges root tree changed = .ok report) ↔
      ∀ source ∈ sourcePaths changed, ∀ path ∈ candidates source,
        isFile root tree path ≠ .error .nameTooLong) ∧
    ∀ report, ofChanges root tree changed = .ok report →
      report.changedSources = (sourcePaths changed).length ∧
      report.coveredSources + report.gaps.length = report.changedSources ∧
      report.gaps = ((sourcePaths changed).filter fun source =>
        ¬ IsCovered root tree changed source).map (gapOf root tree) ∧
      report.ratio = Binary64.ofRat report.share ∧
      ∀ tests : List ChangedFile, (∀ file ∈ tests, file.category = .test) →
        ∃ later, ofChanges root tree (changed ++ tests) = .ok later ∧
          later.changedSources = report.changedSources ∧ later.gaps.Sublist report.gaps := by
  refine ⟨exists_ofChanges_iff, fun report hreport => ?_⟩
  have hlookup := exists_ofChanges_iff.mp ⟨report, hreport⟩
  rw [ofChanges_eq hlookup] at hreport
  cases hreport
  refine ⟨rfl, ?_, rfl, ?_, fun tests htests => ?_⟩
  · -- every source is covered or not
    have hsplit := List.length_eq_countP_add_countP
      (fun source => decide (IsCovered root tree changed source)) (l := sourcePaths changed)
    rw [List.length_map, ← List.countP_eq_length_filter, hsplit]
    simp only [decide_eq_true_eq, decide_not]
  · by_cases hnone : sourcePaths changed = []
    · simp only [share, hnone, List.length_nil, if_true]
      rfl
    · have hsome : (sourcePaths changed).length ≠ 0 := mt List.length_eq_zero_iff.mp hnone
      simp only [share, hnone, hsome, if_false, Rat.mkRat_eq_div, Int.cast_natCast]
  · have hsources := sourcePaths_append htests changed
    refine ⟨_, ofChanges_eq (hsources ▸ hlookup), by rw [hsources], ?_⟩
    rw [hsources]
    refine (List.monotone_filter_right _ fun source huncovered => ?_).map _
    rw [decide_eq_true_iff] at huncovered ⊢
    exact fun hcovered => huncovered (hcovered.append tests)

/-- A folder with a source file and the test beside it. -/
def viewTree : Directory :=
  .folder "src" (.file "view.ts" [] (.file "view.test.ts" [] .empty)) .empty

/-- A change of the source file. -/
def viewFile : ChangedFile := { path := "src/view.ts", status := .modified, category := .source }

/-- A change of the test. -/
def viewTest : ChangedFile := { path := "src/view.test.ts", status := .modified, category := .test }

/-- The source file alone leaves a gap, which the change of its test closes. -/
theorem accounts_viewTree :
    ∃ report later, ofChanges ⟨".", []⟩ viewTree [viewFile] = .ok report ∧
      ofChanges ⟨".", []⟩ viewTree ([viewFile] ++ [viewTest]) = .ok later ∧
      report.gaps = [gapOf ⟨".", []⟩ viewTree "src/view.ts"] ∧ report.coveredSources = 0 ∧
      later.gaps = [] ∧ later.coveredSources = 1 := by
  have hroom : ∀ source ∈ sourcePaths [viewFile], LeavesRoom ⟨".", []⟩ source := by decide
  obtain ⟨report, hreport⟩ := exists_ofChanges_of_leavesRoom viewTree (List.forall_mem_nil _) hroom
  have hopen : ¬ IsCovered ⟨".", []⟩ viewTree [viewFile] "src/view.ts" := by
    rintro ⟨-, -, -, file, hfile, htest, -⟩
    rw [List.mem_singleton.mp hfile] at htest
    cases htest
  have hclosed : IsCovered ⟨".", []⟩ viewTree ([viewFile] ++ [viewTest]) "src/view.ts" :=
    ⟨"src/view.test.ts", (mem_candidates_iff (by decide)).mpr
        ⟨".ts", by decide, "src/view.test.ts", by decide +kernel, by decide +kernel⟩,
      by decide +kernel, viewTest, by decide, rfl, rfl⟩
  obtain ⟨-, haccount⟩ := accounts_ofChanges ⟨".", []⟩ viewTree [viewFile]
  obtain ⟨hsources, hsum, hgaps, -, hmore⟩ := haccount report hreport
  obtain ⟨later, hlater, -⟩ := hmore [viewTest] (by decide)
  obtain ⟨-, haccount⟩ := accounts_ofChanges ⟨".", []⟩ viewTree ([viewFile] ++ [viewTest])
  obtain ⟨hsources', hsum', hgaps', -⟩ := haccount later hlater
  have hfirst : sourcePaths [viewFile] = ["src/view.ts"] := rfl
  have hsecond : sourcePaths ([viewFile] ++ [viewTest]) = ["src/view.ts"] := rfl
  rw [hfirst] at hsources hgaps
  rw [hsecond] at hsources' hgaps'
  have hone : report.gaps = [gapOf ⟨".", []⟩ viewTree "src/view.ts"] := by
    simp [hgaps, hopen]
  have hnone : later.gaps = [] := by
    rw [hgaps', List.filter_singleton, decide_eq_false (not_not_intro hclosed)]
    rfl
  refine ⟨report, later, hreport, hlater, hone, ?_, hnone, ?_⟩
  · rw [hone, List.length_singleton, hsources] at hsum
    simpa using hsum
  · rw [hnone, List.length_nil, hsources'] at hsum'
    simpa using hsum'

/-- A source file whose name leaves no room for that of an expected test is not accounted for: there
is no report. -/
theorem ofChanges_longNamed :
    sourcePaths [Analysis.longNamedFile.changedFile] = [Analysis.longName.text] ∧
      ∀ report, ofChanges ⟨".", []⟩ .empty [Analysis.longNamedFile.changedFile] ≠
        .ok report := by
  have hsources : sourcePaths [Analysis.longNamedFile.changedFile] = [Analysis.longName.text] := by
    rw [sourcePaths, List.filter_singleton, decide_eq_true Analysis.category_longNamedFile]
    rfl
  refine ⟨hsources, fun report hreport => ?_⟩
  obtain ⟨path, hpath, hrefused⟩ := exists_candidate_nameTooLong .empty
    (show (⟨".", []⟩ : Root).place = [] from rfl)
    Analysis.longName_apart.1 Analysis.longName_apart.2 Analysis.lt_longName
  have hsource : Analysis.longName.text ∈ sourcePaths [Analysis.longNamedFile.changedFile] :=
    hsources ▸ List.mem_singleton_self _
  exact exists_ofChanges_iff.mp ⟨report, hreport⟩ _ hsource path hpath hrefused

end CoverageReport

end ChangeImpact
