import ChangeImpact.Proofs.ScannedAnalysis

/-!
# Consumers and edges

The consumers of a breaking change and the edges of the impact graph are found apart from each
other. They agree: every changed source file is expanded exactly once, in the first round, with the
map that the breaking changes are given, so the edges into it lead from its consumers.
-/

namespace ChangeImpact

namespace ImpactGraph

variable {map : ReverseMap} {changed : List ChangedFile} {files : List String} {file : String}
  {maxDepth : ℕ}

/-- Of the edges into a file, those into that file are all or none. -/
theorem filter_edgesInto (map : ReverseMap) (file target : String) :
    (edgesInto map target).filter (·.target = file) =
      if target = file then edgesInto map file else [] := by
  split_ifs with heq
  · rw [heq, List.filter_eq_self]
    intro edge hedge
    obtain ⟨dependent, -, rfl⟩ := List.mem_map.mp hedge
    exact decide_eq_true rfl
  · rw [List.filter_eq_nil_iff]
    intro edge hedge
    obtain ⟨dependent, -, rfl⟩ := List.mem_map.mp hedge
    simpa using heq

/-- Where each of some files is expanded once, the edges into one of them are those of its one
expansion. -/
theorem filter_flatMap_edgesInto (hnodup : files.Nodup) (hfile : file ∈ files) :
    (files.flatMap (edgesInto map)).filter (·.target = file) = edgesInto map file := by
  obtain ⟨before, after, rfl⟩ := List.append_of_mem hfile
  have hothers : file ∉ before ++ after := (List.nodup_cons.mp (List.nodup_middle.mp hnodup)).1
  have hnone {others : List String} (hnot : file ∉ others) :
      (others.flatMap (edgesInto map)).filter (·.target = file) = [] := by
    rw [List.filter_flatMap, List.flatMap_eq_nil_iff]
    intro other hother
    rw [filter_edgesInto, if_neg]
    rintro rfl
    exact hnot hother
  rw [List.mem_append, not_or] at hothers
  rw [List.flatMap_append, List.flatMap_cons, List.filter_append, List.filter_append,
    hnone hothers.1, hnone hothers.2, filter_edgesInto, if_pos rfl, List.nil_append,
    List.append_nil]

/-- With at least one round, the edges into a changed source file lead from its dependents. -/
theorem sources_filter_edges_ofChanges (map : ReverseMap) (hdistinct : (sourcePaths changed).Nodup)
    (hdepth : 1 ≤ maxDepth) (hfile : file ∈ sourcePaths changed) :
    ((ofChanges map changed maxDepth).edges.filter (·.target = file)).map (·.source) =
      map.dependents file := by
  obtain ⟨expanded, hsettled⟩ := settledTo_ofChanges map changed maxDepth
  have hedges : (ofChanges map changed maxDepth).edges = expanded.flatMap (edgesInto map) :=
    hsettled.edges_eq
  have hnodup : expanded.Nodup := by
    rw [← hsettled.filter_visited]
    exact (hdistinct.append hsettled.nodup_reached hsettled.disjoint).filter _
  have hnear : map.importDistance (sourcePaths changed) file = 0 :=
    ReverseMap.importDistance_eq_zero_iff.mpr hfile
  have hexpanded : file ∈ expanded := by
    rw [hsettled.mem_expanded_iff, hnear]
    exact_mod_cast hdepth
  rw [hedges, filter_flatMap_edgesInto hnodup hexpanded, map_source_edgesInto]

end ImpactGraph

namespace Analysis

variable {repo : Git.Repository} {options : AnalysisOptions} {config : Option ProjectConfig}
  {cache : Option MapCache} {after : MapCache} {input : Input} {analysis : Analysis}

/-- Whichever cache is asked, a breaking change is one of a modified or deleted file, whose
consumers are the sources of the edges into that file if it is a source file, in their order; all
breaking changes of one file have the same consumers. -/
theorem consumers_of_runCached (options : AnalysisOptions)
    (hinput : Analysis.input repo options.baseBranch options.headBranch config = .ok input)
    (hrun : runCached repo options config cache = .ok (.ok analysis, after))
    (hbreaking : options.skipBreaking = false) (hdepth : 1 ≤ input.config.maxDepth)
    (hdistinct : (analysis.changedFiles.map (·.path)).Nodup) :
    (∀ change ∈ analysis.breakingChanges,
      ∃ file ∈ analysis.changedFiles, file.path = change.filePath ∧
        (file.status = .modified ∨ file.status = .deleted) ∧
        (file.category = .source → change.consumers =
          (analysis.impactGraph.edges.filter (·.target = change.filePath)).map (·.source))) ∧
    ∀ first ∈ analysis.breakingChanges, ∀ second ∈ analysis.breakingChanges,
      first.filePath = second.filePath → first.consumers = second.consumers := by
  obtain ⟨found, hfound, hresult⟩ := exists_input_of_runCached hrun
  obtain rfl : input = found := Except.ok.inj (hinput.symm.trans hfound)
  obtain ⟨-, -, hchanged, hreported, -, himpact⟩ := eq_of_ofInput hresult
  rw [breakingPart, hbreaking, if_neg Bool.false_ne_true] at hreported
  rw [hchanged] at hdistinct ⊢
  rw [hreported, himpact]
  have hsources : (sourcePaths input.changed).Nodup :=
    hdistinct.sublist (List.filter_sublist.map _)
  refine ⟨fun change hchange => ?_, fun first hfirst second hsecond hsame => ?_⟩
  · obtain ⟨file, hfile, hcandidate, hpath, hconsumers⟩ :=
      BreakingChange.exists_file_of_mem_ofChanges hchange
    refine ⟨file, hfile, hpath.symm, (BreakingChange.isCandidate_iff.mp hcandidate).1,
      fun hsource => ?_⟩
    have hmem : file.path ∈ sourcePaths input.changed :=
      List.mem_map_of_mem (List.mem_filter.mpr ⟨hfile, by simpa using hsource⟩)
    rw [hconsumers, hpath, ImpactGraph.sources_filter_edges_ofChanges _ hsources hdepth hmem]
  · rw [BreakingChange.consumers_eq_of_mem_ofChanges hfirst, hsame,
      ← BreakingChange.consumers_eq_of_mem_ofChanges hsecond]

/-- A repository whose head drops an export from a module that another file imports. -/
def narrowedRepository : Git.Repository where
  root := ⟨"/work", ["work"]⟩
  tree := .folder "work" (.file "app.ts" (Text.Utf8.encode "import { f } from './lib';\n".toList)
    (.file "lib.ts" (Text.Utf8.encode "let n = 1;\n".toList) .empty)) .empty
  git arguments :=
    if arguments = Git.Question.arguments .isWorkTree then
      .ok { out := Text.Utf8.encode "true\n".toList }
    else if arguments = Git.Question.arguments (.changes "main" "HEAD") then
      .ok { out := Text.Utf8.encode "1\t1\tlib.ts\n".toList }
    else if arguments = Git.Question.arguments (.content "main" "lib.ts") then
      .ok { out := Text.Utf8.encode "export function f() {}\n".toList }
    else if arguments = Git.Question.arguments (.content "HEAD" "lib.ts") then
      .ok { out := Text.Utf8.encode "let n = 1;\n".toList }
    else .ok {}

/-- What an analysis of that repository works on. -/
def narrowedInput : Input where
  base := "main"
  head := "HEAD"
  config := {}
  changed := [{
    path := "lib.ts"
    status := .modified
    additions := 1
    deletions := 1
    language := "typescript"
    category := .source }]

/-- An analysis of that repository has this input. -/
theorem input_narrowedRepository :
    Analysis.input narrowedRepository none none none = .ok narrowedInput :=
  eq_ok_of_toOption (by decide +kernel)

/-- Its scan finds the import of the narrowed file. -/
theorem scannedMap_narrowedRepository :
    scannedMap narrowedRepository narrowedInput =
      ⟨["app.ts", "lib.ts"], [⟨"app.ts", "lib.ts"⟩]⟩ := by
  have hcollected : collectFiles (narrowedRepository.root.resolved.directory
      narrowedRepository.tree) modulePatterns narrowedInput.config.scan = ["app.ts", "lib.ts"] := by
    rw [collectFiles, List.mergeSort_of_pairwise (by decide)]
    decide
  rw [scannedMap, ReverseMap.ofDirectory_eq (by decide), hcollected]
  decide +kernel

/-- An analysis of that repository has the importer as the consumer of the dropped export. -/
theorem exists_run_narrowedRepository :
    ∃ analysis, run narrowedRepository ⟨"/work", none, none, false, true, true⟩ none =
        .ok analysis ∧
      analysis.changedFiles = narrowedInput.changed ∧
      analysis.breakingChanges =
        [⟨"lib.ts", .removedExport, "f", "function f ()", none, .high, ["app.ts"]⟩] ∧
      analysis.impactGraph.edges = [⟨"app.ts", "lib.ts"⟩] := by
  obtain ⟨analysis, hrun⟩ :=
    (exists_run_iff ⟨"/work", none, none, false, true, true⟩ input_narrowedRepository).mpr
      ⟨⟨_, rfl⟩, Text.lt_countLimit (by decide)⟩
  have hresult := hrun
  rw [run_of_input ⟨"/work", none, none, false, true, true⟩ input_narrowedRepository,
    scannedMap_narrowedRepository] at hresult
  obtain ⟨-, -, hchanged, hbreaking, -, himpact⟩ := eq_of_ofInput hresult
  refine ⟨analysis, hrun, hchanged, ?_, ?_⟩
  · rw [hbreaking]
    decide +kernel
  · rw [himpact]
    decide

/-- The importer is the consumer of the dropped export and the source of the one edge. -/
theorem consumers_of_runCached_narrowed :
    Analysis.input narrowedRepository none none none = .ok narrowedInput ∧
      1 ≤ narrowedInput.config.maxDepth ∧
      ∃ analysis after,
        runCached narrowedRepository ⟨"/work", none, none, false, true, true⟩ none none =
          .ok (.ok analysis, after) ∧
        (analysis.changedFiles.map (·.path)).Nodup ∧
        analysis.impactGraph.edges = [⟨"app.ts", "lib.ts"⟩] ∧
        analysis.breakingChanges =
          [⟨"lib.ts", .removedExport, "f", "function f ()", none, .high, ["app.ts"]⟩] ∧
        ∀ change ∈ analysis.breakingChanges, ∃ file ∈ analysis.changedFiles,
          file.path = change.filePath ∧ (file.status = .modified ∨ file.status = .deleted) ∧
            (file.category = .source → change.consumers =
              (analysis.impactGraph.edges.filter (·.target = change.filePath)).map (·.source)) := by
  obtain ⟨analysis, hrun, hchanged, hbreaking, himpact⟩ := exists_run_narrowedRepository
  obtain ⟨after, hcached⟩ := exists_runCached_of_run hrun
  have hdistinct : (analysis.changedFiles.map (·.path)).Nodup := by
    rw [hchanged]
    decide
  refine ⟨input_narrowedRepository, by decide, analysis, after, hcached, hdistinct, himpact,
    hbreaking, ?_⟩
  exact (consumers_of_runCached ⟨"/work", none, none, false, true, true⟩ input_narrowedRepository
    hcached rfl (by decide) hdistinct).1

end Analysis

end ChangeImpact
