import ChangeImpact.Proofs.AnalysisRun
import ChangeImpact.Proofs.Breaking
import ChangeImpact.Proofs.ExpectedTests
import ChangeImpact.Proofs.Impact
import ChangeImpact.Proofs.ImportScan

/-!
# Analyses of scanned repositories

A scan resolves imports among the files that it collects, so only collected files have dependents. A
changed file that is not collected, such as a deleted one, therefore has no consumers and leads the
impact to no other file, even where a collected file still imports it.
-/

namespace ChangeImpact

namespace Import

/-- An import resolves to a known file. -/
theorem mem_of_resolve_eq_some {specifier importer file : String} {known : List String}
    (hresolve : resolve specifier importer known = some file) : file ∈ known := by
  have hfound : known.contains file = true := List.find?_some hresolve
  simpa using hfound

end Import

namespace ReverseMap

variable {map : ReverseMap} {known targets : List String} {file target : String} {n : ℕ}

/-- Scanned imports lead to collected files. -/
theorem imported_mem_of_mem_links_ofDirectory {directory : Directory} {config : ScanConfig}
    {link : ImportLink} (hlink : link ∈ (ofDirectory directory config).links) :
    link.imported ∈ collectFiles directory modulePatterns config := by
  rw [ofDirectory, ← List.foldl_flatten, foldl_addFile] at hlink
  change link ∈ (ofLinks _ _).links at hlink
  rw [ofLinks_eq, List.mem_eraseDups, List.mem_flatMap] at hlink
  obtain ⟨path, -, hpath⟩ := hlink
  obtain ⟨-, text, -, specifier, -, -, hresolve⟩ := Directory.mem_links.mp hpath
  exact Import.mem_of_resolve_eq_some hresolve

/-- A file to which no import leads has no dependents. -/
theorem dependents_eq_nil_of_not_mem (hmap : ∀ link ∈ map.links, link.imported ∈ known)
    (hfile : file ∉ known) : map.dependents file = [] := by
  rw [List.eq_nil_iff_forall_not_mem]
  intro importer himporter
  exact hfile (hmap _ (mem_dependents.mp himporter))

/-- A chain of imports ends where it begins or at a file to which an import leads. -/
theorem ImportChain.eq_or_mem (hmap : ∀ link ∈ map.links, link.imported ∈ known)
    (chain : ImportChain map n file target) : file = target ∨ target ∈ known := by
  induction chain with
  | here => exact .inl rfl
  | step link chain ih =>
    obtain rfl | hknown := ih
    · exact .inr (hmap _ link)
    · exact .inr hknown

/-- Targets to which no import leads bring no other file nearer. -/
theorem importDistance_filter (hmap : ∀ link ∈ map.links, link.imported ∈ known)
    (hfile : file ∉ targets) :
    map.importDistance (targets.filter (· ∈ known)) file = map.importDistance targets file := by
  have hreach : {n : ℕ | ∃ target ∈ targets.filter (· ∈ known), ImportChain map n file target} =
      {n : ℕ | ∃ target ∈ targets, ImportChain map n file target} := by
    ext n
    constructor
    · rintro ⟨target, htarget, chain⟩
      exact ⟨target, (List.mem_filter.mp htarget).1, chain⟩
    · rintro ⟨target, htarget, chain⟩
      obtain rfl | hknown := chain.eq_or_mem hmap
      · exact absurd htarget hfile
      · exact ⟨target, List.mem_filter.mpr ⟨htarget, by simpa using hknown⟩, chain⟩
  rw [importDistance, importDistance, hreach]

end ReverseMap

namespace BreakingChange

variable {repo : Git.Repository} {base head : String} {map : ReverseMap} {file : ChangedFile}
  {change : BreakingChange}

/-- A compared file is reported as skipped, as deleted or as modified. -/
theorem ofFile_cases {changes : List BreakingChange}
    (hreport : ofFile repo base head (some map) file = .ok changes) :
    changes = [] ∨
      (∃ before, changes = ofDeleted file.path (map.dependents file.path) before) ∨
      ∃ before after, changes = ofModified file.path (map.dependents file.path) before after := by
  unfold ofFile at hreport
  cases hbase : repo.contentIfAny base file.path with
  | error fault => simp [hbase, bind, Except.bind] at hreport
  | ok shown =>
    cases shown with
    | none =>
      rw [hbase] at hreport
      cases hreport
      exact .inl rfl
    | some before =>
      by_cases hstatus : file.status = .deleted
      · rw [hbase, hstatus] at hreport
        cases hreport
        exact .inr (.inl ⟨before, rfl⟩)
      · simp only [hbase, bind, Except.bind, if_neg hstatus] at hreport
        cases hhead : repo.contentIfAny head file.path with
        | error fault => simp [hhead] at hreport
        | ok shown =>
          rw [hhead] at hreport
          cases shown with
          | none =>
            cases hreport
            exact .inl rfl
          | some after =>
            cases hreport
            exact .inr (.inr ⟨before, after, rfl⟩)

/-- A reported alteration is one of the file, with the given consumers. -/
theorem eq_of_alteration?_eq_some {path : String} {consumers : List String}
    {pair : ExportedSymbol × ExportedSymbol}
    (hchange : alteration? path consumers pair = some change) :
    change.filePath = path ∧ change.consumers = consumers := by
  simp only [alteration?, ite_not] at hchange
  split at hchange
  · split at hchange
    · cases hchange
      exact ⟨rfl, rfl⟩
    · cases hchange
  · cases hchange
    exact ⟨rfl, rfl⟩

/-- A reported removal is one of the file, with the given consumers. -/
theorem eq_of_mem_map_removal {path : String} {consumers : List String}
    {symbols : List ExportedSymbol} (hchange : change ∈ symbols.map (removal path consumers)) :
    change.filePath = path ∧ change.consumers = consumers := by
  obtain ⟨symbol, -, rfl⟩ := List.mem_map.mp hchange
  exact ⟨rfl, rfl⟩

/-- Every report on a file is on that file, with the dependents of the file as consumers. -/
theorem eq_of_mem_ofFile {changes : List BreakingChange}
    (hreport : ofFile repo base head (some map) file = .ok changes) (hchange : change ∈ changes) :
    change.filePath = file.path ∧ change.consumers = map.dependents file.path := by
  obtain rfl | ⟨before, rfl⟩ | ⟨before, after, rfl⟩ := ofFile_cases hreport
  · cases hchange
  · exact eq_of_mem_map_removal hchange
  · obtain hremoved | haltered := List.mem_append.mp hchange
    · exact eq_of_mem_map_removal hremoved
    · obtain ⟨pair, -, hpair⟩ := List.mem_filterMap.mp haltered
      exact eq_of_alteration?_eq_some hpair

/-- A breaking change is one of a compared file, with the dependents of the file as consumers. -/
theorem exists_file_of_mem_ofChanges {changed : List ChangedFile}
    (hchange : change ∈ ofChanges repo base head changed (some map)) :
    ∃ file ∈ changed, isCandidate file = true ∧ change.filePath = file.path ∧
      change.consumers = map.dependents file.path := by
  obtain ⟨file, hfile, hreported⟩ := List.mem_flatMap.mp hchange
  obtain ⟨hmem, hcandidate⟩ := List.mem_filter.mp hfile
  refine ⟨file, hmem, hcandidate, ?_⟩
  cases hreport : ofFile repo base head (some map) file with
  | error fault => simp [hreport] at hreported
  | ok changes =>
    rw [hreport] at hreported
    exact eq_of_mem_ofFile hreport hreported

/-- The consumers of a breaking change are the dependents of its file. -/
theorem consumers_eq_of_mem_ofChanges {changed : List ChangedFile}
    (hchange : change ∈ ofChanges repo base head changed (some map)) :
    change.consumers = map.dependents change.filePath := by
  obtain ⟨file, -, -, hpath, hconsumers⟩ := exists_file_of_mem_ofChanges hchange
  rw [hpath, hconsumers]

end BreakingChange

namespace Analysis

variable {repo : Git.Repository} {options : AnalysisOptions} {config : Option ProjectConfig}
  {input : Input} {analysis : Analysis}

/-- The files that a scan for an analysis collects. -/
def collected (repo : Git.Repository) (input : Input) : List String :=
  collectFiles (repo.root.resolved.directory repo.tree) modulePatterns input.config.scan

/-- The breaking changes of a file that is not collected have no consumers, and only through
collected files does a change affect others: an affected file is one, apart from the changed ones,
that some chain of at most `maxDepth` imports leads down to a changed and collected source file. -/
theorem run_uncollected (options : AnalysisOptions)
    (hinput : Analysis.input repo options.baseBranch options.headBranch config = .ok input)
    (hrun : run repo options config = .ok analysis) :
    (∀ change ∈ analysis.breakingChanges, change.filePath ∉ collected repo input →
      change.consumers = []) ∧
    ∀ file, file ∈ analysis.impactGraph.indirectlyAffected ↔
      file ∉ sourcePaths input.changed ∧
        (scannedMap repo input).importDistance
          ((sourcePaths input.changed).filter (· ∈ collected repo input)) file ≤
          input.config.maxDepth := by
  have hlinks (link : ImportLink) (hlink : link ∈ (scannedMap repo input).links) :
      link.imported ∈ collected repo input :=
    ReverseMap.imported_mem_of_mem_links_ofDirectory hlink
  rw [run_of_input options hinput] at hrun
  obtain ⟨-, -, -, hbreaking, -, himpact⟩ := eq_of_ofInput hrun
  refine ⟨fun change hchange hfile => ?_, fun file => ?_⟩
  · rw [hbreaking, breakingPart] at hchange
    split at hchange
    · cases hchange
    · rw [BreakingChange.consumers_eq_of_mem_ofChanges hchange]
      exact ReverseMap.dependents_eq_nil_of_not_mem hlinks hfile
  · obtain ⟨expanded, hsettled⟩ :=
      ImpactGraph.settledTo_ofChanges (scannedMap repo input) input.changed input.config.maxDepth
    have hvisited := hsettled.mem_visited_iff file
    rw [himpact]
    constructor
    · intro hreached
      have hstart : file ∉ sourcePaths input.changed := fun h => hsettled.disjoint h hreached
      refine ⟨hstart, ?_⟩
      rw [ReverseMap.importDistance_filter hlinks hstart]
      exact hvisited.mp (List.mem_append_right _ hreached)
    · rintro ⟨hstart, hnear⟩
      rw [ReverseMap.importDistance_filter hlinks hstart] at hnear
      exact (List.mem_append.mp (hvisited.mpr hnear)).resolve_left hstart

/-- A repository whose head deletes a module that the file left in the tree imports. -/
def deletingRepository : Git.Repository where
  root := ⟨".", []⟩
  tree := .file "app.ts" (Text.Utf8.encode "import { f } from './lib';\n".toList) .empty
  git arguments :=
    if arguments = Git.Question.arguments .isWorkTree then
      .ok { out := Text.Utf8.encode "true\n".toList }
    else if arguments = Git.Question.arguments (.changes "main" "HEAD") then
      .ok { out := Text.Utf8.encode "0\t1\tlib.ts\n delete mode 100644 lib.ts\n".toList }
    else if arguments = Git.Question.arguments (.content "main" "lib.ts") then
      .ok { out := Text.Utf8.encode "export function f() {}\n".toList }
    else .ok {}

/-- What an analysis of that repository works on. -/
def deletingInput : Input where
  base := "main"
  head := "HEAD"
  config := {}
  changed := [{
    path := "lib.ts"
    status := .deleted
    deletions := 1
    language := "typescript"
    category := .source }]

/-- The analysis of that repository has this input. -/
theorem input_deletingRepository :
    Analysis.input deletingRepository (some "main") none (some {}) = .ok deletingInput :=
  eq_ok_of_toOption (by decide +kernel)

/-- The deleted file is not collected. -/
theorem collected_deletingRepository : collected deletingRepository deletingInput = ["app.ts"] := by
  rw [collected, collectFiles, List.mergeSort_of_pairwise (by decide)]
  decide

/-- So the import of the deleted file leads nowhere. -/
theorem scannedMap_deletingRepository :
    scannedMap deletingRepository deletingInput = ⟨["app.ts"], []⟩ := by
  have hcollected : collectFiles (deletingRepository.root.resolved.directory
      deletingRepository.tree) modulePatterns deletingInput.config.scan = ["app.ts"] :=
    collected_deletingRepository
  rw [scannedMap, ReverseMap.ofDirectory_eq (by decide), hcollected]
  decide +kernel

/-- An analysis of that repository succeeds. -/
theorem exists_run_deletingRepository (skipBreaking skipDocs : Bool) :
    ∃ analysis, run deletingRepository ⟨".", some "main", none, skipBreaking, false, skipDocs⟩
      (some {}) = .ok analysis := by
  rw [exists_run_iff ⟨".", some "main", none, skipBreaking, false, skipDocs⟩
    input_deletingRepository]
  have hlines : RiskFactor.changedLines deletingInput.changed < Text.countLimit :=
    Text.lt_countLimit (by decide)
  have hroom : ∀ source ∈ sourcePaths deletingInput.changed,
      Coverage.LeavesRoom deletingRepository.root source := by
    decide
  exact ⟨CoverageReport.exists_ofChanges_of_leavesRoom _ (List.forall_mem_nil _) hroom, hlines⟩

/-- The deleted module is not collected, so the loss of its export has no consumers. -/
theorem run_uncollected_deleted :
    Analysis.input deletingRepository (some "main") none (some {}) = .ok deletingInput ∧
      "lib.ts" ∉ collected deletingRepository deletingInput ∧
      ∃ analysis, run deletingRepository ⟨".", some "main", none, false, false, true⟩ (some {}) =
          .ok analysis ∧
        ∀ change ∈ analysis.breakingChanges, change.filePath = "lib.ts" →
          change.consumers = [] := by
  have hgone : "lib.ts" ∉ collected deletingRepository deletingInput := by
    rw [collected_deletingRepository]
    decide
  obtain ⟨analysis, hrun⟩ := exists_run_deletingRepository false true
  obtain ⟨hconsumers, -⟩ := run_uncollected
    ⟨".", some "main", none, false, false, true⟩ input_deletingRepository hrun
  refine ⟨input_deletingRepository, hgone, analysis, hrun, fun change hchange hfile => ?_⟩
  exact hconsumers change hchange (hfile ▸ hgone)

/-- The file left in the tree is collected and imports the deleted module, as its specifier resolves
among the collected files and that module, but it is neither a consumer nor affected. -/
theorem run_deleting_misses_importer :
    ∃ analysis, run deletingRepository ⟨".", some "main", none, false, false, false⟩ (some {}) =
        .ok analysis ∧
      analysis.changedFiles.map (fun file => (file.path, file.status, file.category)) =
        [("lib.ts", .deleted, .source)] ∧
      collected deletingRepository deletingInput = ["app.ts"] ∧
      deletingRepository.tree.text? "app.ts" = some "import { f } from './lib';\n" ∧
      "./lib" ∈ Import.specifiers "import { f } from './lib';\n" ∧
      Import.isRelative "./lib" = true ∧
      Import.resolve "./lib" "app.ts" ["app.ts", "lib.ts"] = some "lib.ts" ∧
      deletingInput.config.maxDepth = 3 ∧
      analysis.breakingChanges =
        [⟨"lib.ts", .removedExport, "f", "function f ()", none, .high, []⟩] ∧
      analysis.impactGraph.indirectlyAffected = [] := by
  obtain ⟨analysis, hrun⟩ := exists_run_deletingRepository false false
  have hresult := hrun
  rw [run_of_input ⟨".", some "main", none, false, false, false⟩ input_deletingRepository,
    scannedMap_deletingRepository] at hresult
  obtain ⟨-, -, hchanged, hbreaking, -, himpact⟩ := eq_of_ofInput hresult
  refine ⟨analysis, hrun, ?_⟩
  rw [hchanged, hbreaking, himpact, collected_deletingRepository]
  refine ⟨by decide +kernel, rfl, by decide +kernel, by decide +kernel, by decide,
    by decide +kernel, rfl, by decide +kernel, by decide +kernel⟩

end Analysis

end ChangeImpact
