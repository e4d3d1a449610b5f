import ChangeImpact.Change.Listing
import ChangeImpact.Proofs.Outcome
import ChangeImpact.Proofs.PrintedDiff
import Mathlib.Data.List.Nodup

/-!
# Listing a printed diff

The two sections of a printed diff are matched up by the printed paths, and a printed path stands
for one new path. A listing therefore gives back every diff whose new paths differ, in the order in
which it was printed. Counts could have more digits than a number that is read may have, but git
prints none of them.
-/

namespace ChangeImpact

open Text

namespace FileDiff

variable (files : List FileDiff)

/-- The count lines are read in order. -/
theorem foldlM_countLines (summary : DiffSummary) :
    (files.map countLine).foldlM DiffSummary.addLine summary =
      if files.all isReadable then .ok { summary with files := summary.files ++ files.map entry }
      else .error .badNumber := by
  induction files generalizing summary with
  | nil => simp; rfl
  | cons file files ih =>
    rw [List.map_cons, List.foldlM_cons, addLine_countLine, List.all_cons]
    cases file.isReadable with
    | false => rfl
    | true =>
      have hrest := ih { summary with files := summary.files ++ [file.entry] }
      rw [List.append_assoc, List.singleton_append] at hrest
      exact hrest

/-- The summary lines are read in order. -/
theorem foldlM_flatMap_summaryLines (summary : DiffSummary) :
    (files.flatMap summaryLines).foldlM DiffSummary.addLine summary =
      .ok (files.foldl (fun summary file => file.recordIn summary) summary) := by
  induction files generalizing summary with
  | nil => rfl
  | cons file files ih =>
    rw [List.flatMap_cons, List.foldlM_append, foldlM_summaryLines]
    exact ih _

/-- The summary of a diff. -/
def summaryOf : DiffSummary :=
  files.foldl (fun summary file => file.recordIn summary) { files := files.map entry }

/-- No printed line has a line break inside of it. -/
theorem unbroken_of_mem_lines {files : List FileDiff} {line : List Char}
    (hline : line ∈ files.map countLine ++ files.flatMap summaryLines) : Unbroken line := by
  rw [List.mem_append, List.mem_map, List.mem_flatMap] at hline
  obtain ⟨file, -, rfl⟩ | ⟨file, -, hline⟩ := hline
  · exact file.unbroken_countLine
  · exact file.unbroken_of_mem_summaryLines hline

/-- What is printed for a diff is read as its summary, if all digits can be read. -/
theorem ofOutput_diffText : DiffSummary.ofOutput (String.ofList (diffText files)) =
    if files.all isReadable then .ok (summaryOf files) else .error .badNumber := by
  rw [DiffSummary.ofOutput, String.toList_ofList, diffText,
    lines_flatMap_newline fun line hline => unbroken_of_mem_lines hline, List.foldlM_append,
    foldlM_countLines]
  split
  · exact foldlM_flatMap_summaryLines files _
  · rfl

/-- The paths that a summary lists under an action. -/
def listed (summary : DiffSummary) : SummaryAction → List String
  | .create => summary.created
  | .delete => summary.deleted
  | .rename => summary.renamed
  | .copy => summary.copied

/-- A summary lists the files of a diff under their actions. -/
theorem listed_foldl (found : SummaryAction) (summary : DiffSummary) :
    listed (files.foldl (fun summary file => file.recordIn summary) summary) found =
      listed summary found ++
        (files.filter (·.outcome.action? = some found)).map printedText := by
  induction files generalizing summary with
  | nil => simp
  | cons file files ih =>
    have hhere : listed (file.recordIn summary) found = listed summary found ++
        if file.outcome.action? = some found then [file.printedText] else [] := by
      rw [recordIn]
      cases file.outcome.action? with
      | none => simp
      | some other => cases other <;> cases found <;> simp [listed, DiffSummary.record]
    rw [List.foldl_cons, ih, hhere, List.append_assoc, List.filter_cons]
    split_ifs <;> simp_all

/-- The entries of a summary are those of the count lines. -/
theorem files_foldl (summary : DiffSummary) :
    (files.foldl (fun summary file => file.recordIn summary) summary).files = summary.files := by
  induction files generalizing summary with
  | nil => rfl
  | cons file files ih =>
    have hhere : (file.recordIn summary).files = summary.files := by
      rw [recordIn]
      split
      · next found _ => cases found <;> rfl
      · rfl
    rw [List.foldl_cons, ih, hhere]

variable {files} {file : FileDiff}

/-- Where new paths differ, the summary lists a file under no action but its own. -/
theorem mem_listed_summaryOf (hdistinct : (files.map (·.path.text)).Nodup) (hfile : file ∈ files)
    (found : SummaryAction) :
    file.printedText ∈ listed (summaryOf files) found ↔ file.outcome.action? = some found := by
  have hnone : listed { files := files.map entry } found = [] := by cases found <;> rfl
  rw [summaryOf, listed_foldl, hnone, List.nil_append]
  simp only [List.mem_map, List.mem_filter, decide_eq_true_eq]
  constructor
  · rintro ⟨other, ⟨hother, haction⟩, hprinted⟩
    have hsame : other = file :=
      List.inj_on_of_nodup_map hdistinct hother hfile (path_eq_of_printedText_eq hprinted)
    rwa [← hsame]
  · exact fun haction => ⟨file, ⟨hfile, haction⟩, rfl⟩

/-- The status that the summary has for the printed path of a file is the file's own. -/
theorem status_summaryOf (hdistinct : (files.map (·.path.text)).Nodup) (hfile : file ∈ files) :
    (summaryOf files).status file.printedText = file.outcome.status := by
  have hlisted (found : SummaryAction) :
      (listed (summaryOf files) found).contains file.printedText =
        decide (file.outcome.action? = some found) := by
    rw [List.contains_eq_mem, decide_eq_decide]
    exact mem_listed_summaryOf hdistinct hfile found
  have hcreate := hlisted .create
  have hdelete := hlisted .delete
  have hrename := hlisted .rename
  have hcopy := hlisted .copy
  simp only [listed] at hcreate hdelete hrename hcopy
  rw [DiffSummary.status, hcreate, hdelete, hrename, hcopy]
  cases file.outcome <;> rfl

/-- Printed line counts are line counts. -/
theorem lineCount_natCast (name : String) (n : ℕ) : lineCount name n = .valid n := by
  rw [lineCount, if_neg (by omega), Int.toNat_natCast]

/-- The changed file of a count line has the status that the summary has for the path, or else is
renamed if the path is read as two. -/
theorem changedFile_countEntry {path : String} {renamed : RenamedPath}
    (hread : RenamedPath.ofPrinted path = some renamed) (summary : DiffSummary)
    (counts : Option (ℕ × ℕ)) :
    summary.changedFile (countEntry counts path) = .ok {
      path := renamed.path
      status :=
        if summary.status path = .modified && renamed.oldPath.any (fun old => !old.isEmpty) then
          .renamed
        else summary.status path
      oldPath := renamed.oldPath
      additions := (counts.map Prod.fst).getD 0
      deletions := (counts.map Prod.snd).getD 0
      language := detectLanguage renamed.path
      category := categorize renamed.path } := by
  rw [DiffSummary.changedFile, countEntry]
  simp only [hread, lineCount_natCast]
  rfl

/-- The entry of a count line becomes the changed file. -/
theorem changedFile_entry (hdistinct : (files.map (·.path.text)).Nodup) (hfile : file ∈ files) :
    (summaryOf files).changedFile file.entry = .ok file.changedFile := by
  have hpaths : RenamedPath.ofPrinted file.printedText =
      some ⟨file.path.text, file.outcome.oldPath?.map PlainPath.text⟩ := file.isPrinted.ofPrinted
  have hsaid : (file.outcome.status = .modified &&
      (file.outcome.oldPath?.map PlainPath.text).any fun old => !old.isEmpty) = false := by
    cases file.outcome <;> rfl
  refine (changedFile_countEntry hpaths (summaryOf files) file.counts).trans ?_
  simp only [status_summaryOf hdistinct hfile, hsaid]
  rfl

end FileDiff

namespace Git.Repository

open FileDiff

variable {repo : Repository} {base head : String} {files : List FileDiff} {err : Bytes}

/-- A listing goes through the summary that git prints. -/
theorem changedFiles_of_output {text : List Char} (hreturn : '\r' ∉ text)
    (hreply : repo.git (Question.changes base head).arguments = .ok ⟨0, Utf8.encode text, err⟩) :
    repo.changedFiles base head =
      match DiffSummary.ofOutput (String.ofList text) with
      | .ok summary => summary.changedFiles
      | .error fault => .error fault.failure := by
  have houtput : repo.output (.changes base head) = .ok (String.ofList text) := by
    rw [Repository.output, ask, hreply]
    exact congrArg Except.ok (outputText_encode hreturn)
  rw [Repository.changedFiles, diffSummary, houtput]
  cases hsummary : DiffSummary.ofOutput (String.ofList text) with
  | ok summary => simp only [ofGit, Except.mapError, bind, Except.bind, hsummary]
  | error fault => simp only [ofGit, Except.mapError, bind, Except.bind, hsummary]

/-- A listing of a diff that git prints goes through its summary. -/
theorem changedFiles_eq (hreply : repo.git (Question.changes base head).arguments =
    .ok ⟨0, Utf8.encode (diffText files), err⟩) :
    repo.changedFiles base head =
      if files.all isReadable then (summaryOf files).changedFiles else .error .badNumber := by
  have hreturn : '\r' ∉ diffText files := by
    intro hmem
    rw [diffText, List.mem_flatMap] at hmem
    obtain ⟨line, hline, hmem⟩ := hmem
    rw [List.mem_append, List.mem_singleton] at hmem
    obtain hmem | hnewline := hmem
    · exact absurd (unbroken_of_mem_lines hline _ hmem) (by decide)
    · exact absurd hnewline (by decide)
  rw [changedFiles_of_output hreturn hreply, ofOutput_diffText]
  split_ifs <;> rfl

/-- A listing gives back a printed diff if the new paths of its files differ, unless a count has too
many digits to be read. -/
theorem changedFiles_of_diffText (hdistinct : (files.map (·.path.text)).Nodup)
    (hreply : repo.git (Question.changes base head).arguments =
      .ok ⟨0, Utf8.encode (diffText files), err⟩) :
    repo.changedFiles base head =
      if files.all isReadable then .ok (files.map changedFile) else .error .badNumber := by
  have hentries : (summaryOf files).files = files.map entry := files_foldl files _
  have hlist : (summaryOf files).changedFiles = .ok (files.map changedFile) := by
    rw [DiffSummary.changedFiles, hentries, List.mapM_map]
    exact mapM_eq_ok fun file hfile => changedFile_entry hdistinct hfile
  rw [changedFiles_eq hreply, hlist]

/-- A listing gives back the diff that git prints, in order, if the new paths of its files
differ. -/
theorem changedFiles_of_printed (repo : Repository) (base head : String) (files : List FileDiff)
    (err : Bytes) (hdistinct : (files.map (·.path.text)).Nodup)
    (hcounted : ∀ file ∈ files, file.IsCounted)
    (hreply : repo.git (Question.changes base head).arguments =
      .ok ⟨0, Utf8.encode (diffText files), err⟩) :
    repo.changedFiles base head = .ok (files.map changedFile) := by
  have hreadable : files.all isReadable = true :=
    List.all_eq_true.mpr fun file hfile => (hcounted file hfile).isReadable
  rw [changedFiles_of_diffText hdistinct hreply, if_pos hreadable]

/-- A repository in which git prints a diff. -/
def printing (files : List FileDiff) : Repository where
  root := ⟨".", []⟩
  tree := .empty
  git _ := .ok { out := Utf8.encode (diffText files) }

/-- Files with every outcome, in every notation. -/
def mixedDiff : List FileDiff := [
  { path := ⟨"src/new.ts".toList, by decide, by decide⟩
    outcome := .added 0o100644
    counts := some (12, 0)
    printed := "src/new.ts".toList
    isPrinted := .alone },
  { path := ⟨"old.ts".toList, by decide, by decide⟩
    outcome := .deleted 0o100644
    counts := some (0, 7)
    printed := "old.ts".toList
    isPrinted := .alone },
  { path := ⟨"logo.png".toList, by decide, by decide⟩
    outcome := .modified (some (0o100644, 0o100755))
    counts := none
    printed := "logo.png".toList
    isPrinted := .alone },
  { path := ⟨"src/".toList ++ "lib".toList ++ "/a.ts".toList, by decide, by decide⟩
    outcome := .renamed ⟨"src".toList ++ '/' :: "a.ts".toList, by decide, by decide⟩ 96 none
    counts := some (1, 2)
    printed := _
    isPrinted := .pair (.braces "src/".toList "/a.ts".toList
      (.empty "src".toList "a.ts".toList (by decide) (by decide) (by decide))
      (.filled (by decide) (by decide))) },
  { path := ⟨"b.ts".toList, by decide, by decide⟩
    outcome := .copied ⟨"a.ts".toList, by decide, by decide⟩ 100 none
    counts := some (0, 0)
    printed := _
    isPrinted := .pair .whole }]

/-- The listing of such a diff. -/
theorem changedFiles_mixedDiff :
    (printing mixedDiff).changedFiles "main" "HEAD" = .ok [
      { path := "src/new.ts", status := .added, additions := 12,
        language := "typescript", category := .source },
      { path := "old.ts", status := .deleted, deletions := 7,
        language := "typescript", category := .source },
      { path := "logo.png", status := .modified, category := .other },
      { path := "src/lib/a.ts", status := .renamed, oldPath := some "src/a.ts", additions := 1,
        deletions := 2, language := "typescript", category := .source },
      { path := "b.ts", status := .copied, oldPath := some "a.ts",
        language := "typescript", category := .source }] := by
  have hlisting := changedFiles_of_printed (printing mixedDiff) "main" "HEAD" mixedDiff []
    (by decide +kernel) (by decide) rfl
  rw [hlisting]
  exact congrArg Except.ok (by decide +kernel)

end Git.Repository

end ChangeImpact
