import ChangeImpact.Proofs.AnalysisRun
import ChangeImpact.Proofs.DiffListing
import ChangeImpact.Proofs.ExpectedTests
import ChangeImpact.Proofs.RiskBounds
import ChangeImpact.Proofs.StaleReferences

/-!
# Completed analyses

What git cannot show is left out of an analysis, and so is a file that is no text. An analysis of a
known change set is therefore completed, whatever git answers and whatever the files hold, unless an
expected test has too long a name to be looked up or the changed lines are too many for their number
to be written. A completed analysis is within the bounds of its records.
-/

namespace ChangeImpact

open Git

namespace Analysis

variable {repo : Repository} {options : AnalysisOptions} {config : Option ProjectConfig}
  {cache : Option MapCache} {after : MapCache} {input : Input} {analysis : Analysis}
  {breakingMap impactMap : ReverseMap}

/-- An analysis all of whose records are within their bounds. Counts have no bounds but zero. -/
structure WithinBounds (analysis : Analysis) : Prop where
  coverage : analysis.testCoverage.ratio.UpTo 1
  lines : ∀ reference ∈ analysis.docStaleness.references, 1 ≤ reference.line
  risk : analysis.riskScore.WithinBounds

/-- The coverage is known if it is skipped or all expected tests can be looked up. -/
theorem exists_coveragePart_iff :
    (∃ coverage, coveragePart repo options input = .ok coverage) ↔
      (options.skipCoverage = false → ∀ source ∈ sourcePaths input.changed,
        ∀ path ∈ Coverage.candidates source,
          Coverage.isFile repo.root repo.tree path ≠ .error .nameTooLong) := by
  unfold coveragePart
  split
  case isTrue hskip => simp [hskip]
  case isFalse hskip =>
    rw [Bool.not_eq_true] at hskip
    rw [CoverageReport.exists_ofChanges_iff, hskip]
    exact ⟨fun hfound _ => hfound, fun hfound => hfound rfl⟩

/-- A known coverage is a share, skipped or not. -/
theorem upTo_ratio_of_coveragePart {coverage : CoverageReport}
    (hcoverage : coveragePart repo options input = .ok coverage) : coverage.ratio.UpTo 1 := by
  unfold coveragePart at hcoverage
  split at hcoverage
  · cases hcoverage
    exact_mod_cast Binary64.upTo_ofRat_of_le (by decide) (Nat.zero_le 1)
  · exact CoverageReport.upTo_ratio hcoverage

/-- The analysis of an input is within its bounds. -/
theorem withinBounds_of_ofInput
    (hresult : ofInput repo options input breakingMap impactMap = .ok analysis) :
    analysis.WithinBounds := by
  obtain ⟨hcoverage, hrisk, -, -, hstaleness, -⟩ := eq_of_ofInput hresult
  have hratio := upTo_ratio_of_coveragePart hcoverage
  refine ⟨hratio, fun reference hmem => ?_, RiskAssessment.withinBounds_of_ofChanges? hratio hrisk⟩
  rw [hstaleness, stalenessPart] at hmem
  split at hmem
  · cases hmem
  · exact StalenessReport.one_le_line hmem

/-- An analysis of a known change set is completed exactly if all expected tests can be looked up,
where the coverage is asked for, and the number of changed lines can be written. This does not
depend on what git shows or on what the files hold. A completed analysis is within its bounds. -/
theorem completed_iff (options : AnalysisOptions) (cache : Option MapCache)
    (hinput : Analysis.input repo options.baseBranch options.headBranch config = .ok input) :
    ((∃ analysis after, runCached repo options config cache = .ok (.ok analysis, after)) ↔
      (options.skipCoverage = false → ∀ source ∈ sourcePaths input.changed,
        ∀ path ∈ Coverage.candidates source,
          Coverage.isFile repo.root repo.tree path ≠ .error .nameTooLong) ∧
      RiskFactor.changedLines input.changed < Text.countLimit) ∧
    ∀ analysis after, runCached repo options config cache = .ok (.ok analysis, after) →
      analysis.WithinBounds := by
  constructor
  · rw [exists_runCached_iff options cache hinput, exists_coveragePart_iff]
  · intro analysis after hrun
    obtain ⟨input, -, hresult⟩ := exists_input_of_runCached hrun
    exact withinBounds_of_ofInput hresult

/-- A repository in which git shows no file at any ref, and not even starts to look for one, around
files that are no text. -/
def unreadableRepository : Repository where
  root := ⟨".", []⟩
  tree := .file "app.ts" [0xFF, 0xFE] (.file "README.md" [0xC3] .empty)
  git arguments :=
    if arguments = Question.arguments .isWorkTree then
      .ok { out := Text.Utf8.encode "true\n".toList }
    else if arguments = Question.arguments (.changes "main" "HEAD") then
      .ok { out := Text.Utf8.encode "1\t1\tapp.ts\n".toList }
    else if arguments = Question.arguments (.content "main" "app.ts") then .error .notPermitted
    else if arguments = Question.arguments (.content "HEAD" "app.ts") then
      .ok { status := -9, out := [0xFF], err := [0xC3] }
    else if arguments = Question.arguments (.content "HEAD" "README.md") then
      .error .notDirectory
    else .ok {}

/-- What an analysis of that repository works on. -/
def unreadableInput : Input where
  base := "main"
  head := "HEAD"
  config := {}
  changed := [{
    path := "app.ts"
    status := .modified
    additions := 1
    deletions := 1
    language := "typescript"
    category := .source }]

/-- An analysis of that repository is completed within its bounds. -/
theorem completed_unreadable :
    Analysis.input unreadableRepository (some "main") none (some {}) = .ok unreadableInput ∧
      ∃ analysis after, runCached unreadableRepository ⟨".", some "main", none, false, false, false⟩
        (some {}) none = .ok (.ok analysis, after) ∧ analysis.WithinBounds := by
  have hinput : Analysis.input unreadableRepository (some "main") none (some {}) =
      .ok unreadableInput := eq_ok_of_toOption (by decide +kernel)
  have hlines : RiskFactor.changedLines unreadableInput.changed < Text.countLimit :=
    Text.lt_countLimit (by decide)
  have hroom : ∀ source ∈ sourcePaths unreadableInput.changed,
      Coverage.LeavesRoom unreadableRepository.root source := by
    decide +kernel
  obtain ⟨hcompleted, hbounds⟩ := completed_iff
    ⟨".", some "main", none, false, false, false⟩ none hinput
  obtain ⟨analysis, after, hrun⟩ := hcompleted.mpr ⟨fun _ source hsource path hpath =>
    Coverage.isFile_candidate_ne_nameTooLong _ (List.forall_mem_nil _) (hroom source hsource) hpath,
    hlines⟩
  exact ⟨hinput, analysis, after, hrun, hbounds analysis after hrun⟩

/-- A name that leaves no room for that of an expected test. -/
def longName : PlainPath where
  chars := List.replicate 250 'a' ++ ".ts".toList
  chars_ne_nil := by decide
  isPlain_of_mem := by decide +kernel

/-- The characters of the long name. -/
theorem toList_longName :
    longName.text.toList = List.replicate 250 'a' ++ ['.', 't', 's'] := String.toList_ofList

/-- It has no slashes of either kind. -/
theorem longName_apart : '/' ∉ longName.text.toList ∧ '\\' ∉ longName.text.toList := by
  simp only [toList_longName, List.mem_append, List.mem_replicate]
  decide

/-- Without the extension it leaves less than nine bytes. -/
theorem lt_longName : maxNameBytes < byteLength (Path.withoutExtension longName.text) + 9 := by
  have hback (name : List Char) :
      (((name ++ ['.', 't', 's']).reverse.dropWhile (· != '.')).drop 1).reverse = name := by
    simp
  have hletters : ¬ (List.replicate 250 'a').all (· == '.') = true := by
    rw [List.all_replicate]
    decide
  have hletter : (String.utf8EncodeChar 'a').length = 1 := by decide
  rw [Path.withoutExtension, toList_longName, hback, if_neg hletters, byteLength_ofList,
    Text.Utf8.encode, List.length_flatMap, List.map_replicate, List.sum_replicate, hletter]
  decide

/-- A new file of that name. -/
def longNamedFile : FileDiff where
  path := longName
  outcome := .added 0o100644
  counts := some (1, 0)
  printed := longName.chars
  isPrinted := .alone

/-- A repository whose head adds that file. -/
def longNamedRepository : Repository where
  root := ⟨".", []⟩
  tree := .file longName.text (Text.Utf8.encode "export const n = 1;\n".toList) .empty
  git arguments :=
    if arguments = Question.arguments (.changes "main" "HEAD") then
      .ok { out := Text.Utf8.encode (FileDiff.diffText [longNamedFile]) }
    else if arguments = Question.arguments .isWorkTree then
      .ok { out := Text.Utf8.encode "true\n".toList }
    else .ok {}

/-- What an analysis of that repository works on. -/
def longNamedInput : Input where
  base := "main"
  head := "HEAD"
  config := {}
  changed := [longNamedFile.changedFile]

/-- With a configuration of the caller's, the input is made of the refs and the changed files. -/
theorem input_of_changedFiles {base? head? : Option String} {base head : String}
    (hrefs : repo.refs base? head? = .ok (base, head)) (config : ProjectConfig)
    {changed : List ChangedFile} (hchanged : repo.changedFiles base head = .ok changed) :
    Analysis.input repo base? head? (some config) = .ok ⟨base, head, config, changed⟩ := by
  rw [Analysis.input, hrefs]
  simp only [bind, Except.bind, pure, Except.pure, hchanged]

/-- The analysis of that repository has this input. -/
theorem input_longNamedRepository :
    Analysis.input longNamedRepository (some "main") none (some {}) = .ok longNamedInput := by
  have hrefs : longNamedRepository.refs (some "main") none = .ok ("main", "HEAD") :=
    eq_ok_of_toOption (by decide)
  have hchanged : longNamedRepository.changedFiles "main" "HEAD" =
      .ok [longNamedFile.changedFile] := by
    have hreply : longNamedRepository.git (Question.changes "main" "HEAD").arguments =
        .ok ⟨0, Text.Utf8.encode (FileDiff.diffText [longNamedFile]), []⟩ := by
      rw [longNamedRepository]
      dsimp only
      rw [if_pos rfl]
    have hreadable : [longNamedFile].all FileDiff.isReadable = true := by decide
    have hdistinct : ([longNamedFile].map (·.path.text)).Nodup := List.nodup_singleton _
    rw [Repository.changedFiles_of_diffText hdistinct hreply, if_pos hreadable]
    rfl
  exact input_of_changedFiles hrefs {} hchanged

/-- The file of that name is a source file. -/
theorem category_longNamedFile : longNamedFile.changedFile.category = .source := by
  obtain ⟨hslash, hbackslash⟩ := longName_apart
  have hsegments := Path.segments_eq_singleton hslash
  have hname : Path.fileName longName.text = longName.text := by
    rw [Path.fileName, hsegments]
    rfl
  have hpath : longNamedFile.path = longName := rfl
  rw [FileDiff.changedFile, hpath]
  dsimp only
  rw [categorize, Path.forwardSlashes_eq_self hbackslash]
  simp only [isTestPath, isDocPath, isConfigPath, Path.extension, Path.folders, Path.mentions,
    Path.startsWith, Path.lowercase, hname, hsegments, toList_longName,
    String.toList_ofList]
  decide +kernel

/-- An analysis of that repository is not completed: one of the expected tests has too long a
name. -/
theorem not_completed_longNamed :
    Analysis.input longNamedRepository (some "main") none (some {}) = .ok longNamedInput ∧
      ∀ analysis after, runCached longNamedRepository
        ⟨".", some "main", none, false, false, false⟩ (some {}) none ≠
          .ok (.ok analysis, after) := by
  refine ⟨input_longNamedRepository, fun analysis after hrun => ?_⟩
  obtain ⟨hcoverage, -⟩ := (exists_runCached_iff ⟨".", some "main", none, false, false, false⟩ none
    input_longNamedRepository).mp ⟨analysis, after, hrun⟩
  have hsource : longName.text ∈ sourcePaths [longNamedFile.changedFile] :=
    List.mem_map.mpr ⟨longNamedFile.changedFile, List.mem_filter.mpr
      ⟨List.mem_singleton_self _, decide_eq_true category_longNamedFile⟩, rfl⟩
  obtain ⟨path, hpath, hrefused⟩ := Coverage.exists_candidate_nameTooLong
    longNamedRepository.tree (show longNamedRepository.root.place = [] from rfl)
    longName_apart.1 longName_apart.2 lt_longName
  exact exists_coveragePart_iff.mp hcoverage rfl _ hsource path hpath hrefused

end Analysis

end ChangeImpact
