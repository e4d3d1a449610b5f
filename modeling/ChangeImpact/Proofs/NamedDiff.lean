import ChangeImpact.Proofs.BytewiseName
import ChangeImpact.Proofs.DiffListing

/-!
# Listing one file under any name

A file that was added, deleted or modified is printed under its name, in quotes where the name needs
them, as a count line and, unless it was modified, a summary line. The listing gives back the file
unless a part of its name is taken for something else: a line break that is printed as it is, an
arrow between two names, or, where there are no quotes, a similarity at the end.
-/

namespace ChangeImpact

open Text

/-- What became of a file that has one name, with the mode that is printed. -/
inductive NameChange
  | added (mode : ℕ)
  | deleted (mode : ℕ)
  | modified

/-- The status of the changed file. -/
def NameChange.status : NameChange → FileStatus
  | added _ => .added
  | deleted _ => .deleted
  | modified => .modified

/-- A diff of one file with one name, which may be any text. -/
structure NamedDiff where
  name : List Char
  name_ne_nil : name ≠ []
  change : NameChange
  /-- The lines added and deleted; none for a binary file. -/
  counts : Option (ℕ × ℕ)

namespace NamedDiff

open FileDiff Git

variable (file : NamedDiff)

/-- The name as it is printed. -/
def printed : List Char := printedName file.name

/-- The summary lines. -/
def summaryLines : List (List Char) :=
  match file.change with
  | .added mode => [summaryLine "create" (behindMode mode file.printed)]
  | .deleted mode => [summaryLine "delete" (behindMode mode file.printed)]
  | .modified => []

/-- What is printed for the file. -/
def text : List Char :=
  (countColumns file.counts file.printed :: file.summaryLines).flatMap (· ++ ['\n'])

/-- The name as a string. -/
def path : String := String.ofList file.name

/-- The changed file that a listing should have. -/
def changedFile : ChangedFile where
  path := file.path
  status := file.change.status
  additions := (file.counts.map Prod.fst).getD 0
  deletions := (file.counts.map Prod.snd).getD 0
  language := detectLanguage file.path
  category := categorize file.path

/-- What the listing of a file depends on. -/
structure IsLegible : Prop where
  readable : areReadable file.counts = true
  unbroken : ∀ c ∈ file.name, isBareBreak c = false
  arrowless : ¬ RenamedPath.HasArrow file.name
  whole : file.change = .modified ∨ isQuoted file.name = true ∨ ¬ HasSimilarity file.name

/-! ### Names on one line -/

/-- The name that a summary line is taken to have. -/
def recorded : List Char :=
  if isQuoted file.name then file.name else DiffSummary.withoutSimilarity file.name

/-- A summary line has the name exactly if it is quoted or does not end in a similarity. -/
theorem recorded_eq_name_iff :
    file.recorded = file.name ↔ isQuoted file.name = true ∨ ¬ HasSimilarity file.name := by
  rw [recorded]
  split_ifs with hquoted
  · simp [hquoted]
  · simp [hquoted, withoutSimilarity_eq_self_iff]

/-- A name in quotes ends in a quote. -/
theorem not_hasSimilarity_printed (hquoted : isQuoted file.name = true) :
    ¬ HasSimilarity file.printed := by
  rintro ⟨front, digits, -, -, -, hprinted⟩
  rw [printed, printedName, if_pos hquoted] at hprinted
  have hlast := congrArg List.getLast? hprinted
  simp [List.getLast?_append, List.getLast?_cons] at hlast

/-- A summary line is read as having the name that it records. -/
theorem unquote_withoutSimilarity :
    unquote (String.ofList (DiffSummary.withoutSimilarity file.printed)) =
      some (String.ofList file.recorded) := by
  rw [recorded]
  split_ifs with hquoted
  · rw [withoutSimilarity_eq_self_iff.mpr (file.not_hasSimilarity_printed hquoted), printed]
    exact unquote_printedName file.name
  · rw [printed, printedName, if_neg hquoted]
    refine unquote_eq_self fun hhead => quote_not_mem (Bool.eq_false_iff.mpr hquoted) ?_
    have hfront := withoutSimilarity_prefix file.name
    exact hfront.subset (List.mem_of_head? hhead)

/-- A printed name has no tab. -/
theorem tab_not_mem_printed : '\t' ∉ file.printed :=
  fun htab => absurd (isControl_of_mem_printedName htab) (by decide)

/-- A printed name is not empty. -/
theorem printed_ne_nil : file.printed ≠ [] := printedName_ne_nil file.name_ne_nil

/-- The summary with what became of the file. -/
def recordIn (summary : DiffSummary) : DiffSummary :=
  match file.change with
  | .added _ => summary.record .create (String.ofList file.recorded)
  | .deleted _ => summary.record .delete (String.ofList file.recorded)
  | .modified => summary

/-- The summary lines record what became of the file. -/
theorem foldlM_summaryLines (summary : DiffSummary) :
    file.summaryLines.foldlM DiffSummary.addLine summary = .ok (file.recordIn summary) := by
  have hline {word : String} {found : SummaryAction} (hword : (word, found) ∈ DiffSummary.actions)
      (mode : ℕ) : summary.addLine (summaryLine word (behindMode mode file.printed)) =
        .ok (summary.record found (String.ofList file.recorded)) :=
    addLine_behindMode summary hword file.tab_not_mem_printed file.printed_ne_nil
      file.unquote_withoutSimilarity mode
  rw [summaryLines, recordIn]
  cases file.change with
  | added mode =>
    have hword : ("create", SummaryAction.create) ∈ DiffSummary.actions := by decide
    rw [List.foldlM_cons, hline hword mode]
    rfl
  | deleted mode =>
    have hword : ("delete", SummaryAction.delete) ∈ DiffSummary.actions := by decide
    rw [List.foldlM_cons, hline hword mode]
    rfl
  | modified => rfl

/-- The lines of a name without bare breaks are not broken. -/
theorem unbroken_of_mem_lines (hname : ∀ c ∈ file.name, isBareBreak c = false) :
    ∀ line ∈ countColumns file.counts file.printed :: file.summaryLines, Unbroken line := by
  have hprinted : Unbroken file.printed := fun _ hc => isLineBreak_of_mem_printedName hname hc
  rw [List.forall_mem_cons]
  refine ⟨unbroken_countColumns.mpr hprinted, fun line hline => ?_⟩
  rw [summaryLines] at hline
  split at hline
  · rw [List.mem_singleton.mp hline]
    exact unbroken_summaryLine (by decide) (unbroken_behindMode hprinted _)
  · rw [List.mem_singleton.mp hline]
    exact unbroken_summaryLine (by decide) (unbroken_behindMode hprinted _)
  · cases hline

/-- The entry that the count line should have. -/
def entry : FileCount := countEntry file.counts file.path

/-- What is printed for a name without bare breaks is read as the summary of the file, if the digits
of its counts can be read. -/
theorem ofOutput_text (hname : ∀ c ∈ file.name, isBareBreak c = false) :
    DiffSummary.ofOutput (String.ofList file.text) =
      if areReadable file.counts then .ok (file.recordIn { files := [file.entry] })
      else .error .badNumber := by
  have hpath : unquote (String.ofList file.printed) = some file.path :=
    unquote_printedName file.name
  rw [DiffSummary.ofOutput, String.toList_ofList, text,
    lines_flatMap_newline (file.unbroken_of_mem_lines hname), List.foldlM_cons,
    addLine_countColumns _ hpath]
  split_ifs
  · exact file.foldlM_summaryLines _
  · rfl

/-- The status that the summary has for the name is the file's own exactly if the summary line of an
added or deleted file has the name. -/
theorem status_recordIn_iff :
    (file.recordIn { files := [file.entry] }).status file.path = file.change.status ↔
      file.change = .modified ∨ file.recorded = file.name := by
  have hsame : file.path = String.ofList file.recorded ↔ file.recorded = file.name := by
    rw [path, String.ofList_inj, eq_comm]
  rw [recordIn]
  cases hchange : file.change with
  | added mode =>
    simp only [DiffSummary.status, DiffSummary.record]
    simp [hsame, NameChange.status]
  | deleted mode =>
    simp only [DiffSummary.status, DiffSummary.record]
    simp [hsame, NameChange.status]
  | modified => exact iff_of_true rfl (.inl rfl)

/-- The entry becomes the changed file exactly if its name has no arrow and its summary line, if it
has one, has the name. -/
theorem changedFile_entry_iff :
    (file.recordIn { files := [file.entry] }).changedFile file.entry = .ok file.changedFile ↔
      ¬ RenamedPath.HasArrow file.name ∧
        (file.change = .modified ∨ isQuoted file.name = true ∨ ¬ HasSimilarity file.name) := by
  rw [← recorded_eq_name_iff, ← status_recordIn_iff, ← RenamedPath.ofPrinted_eq_self_iff]
  generalize file.recordIn { files := [file.entry] } = summary
  rw [← path]
  cases hread : RenamedPath.ofPrinted file.path with
  | none =>
    refine iff_of_false ?_ (by simp)
    rw [DiffSummary.changedFile, entry, countEntry, hread]
    simp
  | some renamed =>
    obtain ⟨newPath, oldPath⟩ := renamed
    rw [entry, changedFile_countEntry hread, Except.ok.injEq, changedFile, ChangedFile.mk.injEq,
      Option.some.injEq, RenamedPath.mk.injEq]
    constructor
    · rintro ⟨hpath, hstatus, hold, -⟩
      subst hold
      exact ⟨⟨hpath, rfl⟩, by simpa using hstatus⟩
    · rintro ⟨⟨rfl, rfl⟩, hstatus⟩
      exact ⟨rfl, by simpa using hstatus, rfl, rfl, rfl, rfl, rfl⟩

/-! ### Names on several lines -/

/-- A line without tabs adds no entry. -/
theorem files_of_addLine {summary next : DiffSummary} {line : List Char} (htab : '\t' ∉ line)
    (hline : summary.addLine line = .ok next) : next.files = summary.files := by
  cases hblank : line.all isBlank with
  | true =>
    rw [DiffSummary.addLine, if_pos hblank] at hline
    cases hline
    rfl
  | false =>
    rw [addLine_of_tab_not_mem summary hblank htab] at hline
    split at hline
    · cases hline
      rfl
    · next found _ _ =>
      split at hline
      · cases hline
        cases found <;> rfl
      · cases hline

/-- Lines without tabs add no entries. -/
theorem files_of_foldlM {lines : List (List Char)} (htab : ∀ line ∈ lines, '\t' ∉ line)
    {summary next : DiffSummary} (hlines : lines.foldlM DiffSummary.addLine summary = .ok next) :
    next.files = summary.files := by
  induction lines generalizing summary with
  | nil =>
    cases hlines
    rfl
  | cons line lines ih =>
    rw [List.forall_mem_cons] at htab
    rw [List.foldlM_cons] at hlines
    cases hline : summary.addLine line with
    | error fault =>
      rw [hline] at hlines
      cases hlines
    | ok middle =>
      rw [hline] at hlines
      exact (ih htab.2 hlines).trans (files_of_addLine htab.1 hline)

/-- Digits are no control characters. -/
theorem isControl_of_digit {c : Char} (hc : 48 ≤ c.toNat ∧ c.toNat < 58) : isControl c = false := by
  simp only [isControl, Bool.or_eq_false_iff, decide_eq_false_iff_not]
  omega

/-- Summary lines have no control characters. -/
theorem isControl_of_mem_summaryLines :
    ∀ line ∈ file.summaryLines, ∀ c ∈ line, isControl c = false := by
  have hline (word : String) (mode : ℕ) (hword : ∀ c ∈ word.toList, isControl c = false) :
      ∀ c ∈ summaryLine word (behindMode mode file.printed), isControl c = false := by
    simp only [summaryLine, behindMode, List.forall_mem_cons, List.forall_mem_append]
    exact ⟨by decide, hword, by decide, by decide,
      fun c hc => isControl_of_digit (toNat_of_mem_modeDigits hc), by decide,
      fun c hc => isControl_of_mem_printedName hc⟩
  rw [summaryLines]
  split
  · exact List.forall_mem_singleton.mpr (hline _ _ (by decide))
  · exact List.forall_mem_singleton.mpr (hline _ _ (by decide))
  · exact List.forall_mem_nil _

/-- What is printed has no carriage return. -/
theorem return_not_mem_text : '\r' ∉ file.text := by
  have hcolumn (count : Option ℕ) : '\r' ∉ column count := by
    cases count with
    | none => decide
    | some n => exact fun h => absurd (toNat_of_mem_decimal h) (by decide)
  have hprinted : '\r' ∉ file.printed :=
    fun h => absurd (isControl_of_mem_printedName h) (by decide)
  have hlines : ∀ line ∈ file.summaryLines, '\r' ∉ line :=
    fun line hline h => absurd (file.isControl_of_mem_summaryLines line hline _ h) (by decide)
  simpa [text, countColumns, hcolumn, hprinted] using hlines

/-- Of a name with a bare break the summary has the first line, if it is read at all. -/
theorem exists_entry_of_bareBreak (hname : ∃ c ∈ file.name, isBareBreak c = true) :
    ∃ line mark, mark ∈ file.name ∧ isLineBreak mark = true ∧
      (∀ c ∈ line, isLineBreak c = false) ∧ (∀ before after, line ≠ before ++ ' ' :: '"' :: after) ∧
      ∀ summary, DiffSummary.ofOutput (String.ofList file.text) = .ok summary →
        summary.files = [countEntry file.counts (String.ofList line)] := by
  obtain ⟨line, mark, rest, hprinted, hmem, hmark, hline, hread, hquote⟩ := exists_first_line hname
  rw [isBareBreak, Bool.and_eq_true] at hmark
  obtain ⟨hbreak, hbare⟩ := hmark
  have hreturn : mark ≠ '\r' := by
    rintro rfl
    cases hbare
  refine ⟨line, mark, hmem, hbreak, hline, hquote, fun summary hsummary => ?_⟩
  have htext : file.text = countColumns file.counts line ++
      mark :: (rest ++ '\n' :: file.summaryLines.flatMap (· ++ ['\n'])) := by
    rw [text, printed, hprinted]
    simp [countColumns]
  have htab : '\t' ∉ rest ++ '\n' :: file.summaryLines.flatMap (· ++ ['\n']) := by
    have hrest : '\t' ∉ rest := fun h => file.tab_not_mem_printed (by simp [printed, hprinted, h])
    have hlines : ∀ other ∈ file.summaryLines, '\t' ∉ other :=
      fun other hother h => absurd (file.isControl_of_mem_summaryLines other hother _ h) (by decide)
    simpa [hrest] using hlines
  rw [DiffSummary.ofOutput, String.toList_ofList, htext,
    lines_append_break (unbroken_countColumns.mpr hline) hbreak hreturn, List.foldlM_cons,
    addLine_countColumns _ hread] at hsummary
  split_ifs at hsummary
  · exact files_of_foldlM (fun other hother hmem => htab (mem_of_mem_lines hother hmem)) hsummary
  · cases hsummary

/-- A listing of one entry has one file. -/
theorem changedFiles_eq_ok_iff {summary : DiffSummary} {entry : FileCount} {changed : ChangedFile}
    (hfiles : summary.files = [entry]) :
    summary.changedFiles = .ok [changed] ↔ summary.changedFile entry = .ok changed := by
  rw [DiffSummary.changedFiles, hfiles, List.mapM_cons, List.mapM_nil]
  cases summary.changedFile entry with
  | ok found => simp [pure, Except.pure, bind, Except.bind]
  | error failure => simp [bind, Except.bind]

end NamedDiff

namespace Git.Repository

open FileDiff

variable {repo : Repository} {base head : String} {file : NamedDiff} {err : Bytes}

/-- A file is not listed under a name with a bare break. -/
theorem changedFiles_ne_of_bareBreak
    (hreply : repo.git (Question.changes base head).arguments =
      .ok ⟨0, Utf8.encode file.text, err⟩)
    (hname : ∃ c ∈ file.name, isBareBreak c = true) :
    repo.changedFiles base head ≠ .ok [file.changedFile] := by
  obtain ⟨line, mark, hmem, hbreak, hline, hquote, hentry⟩ := file.exists_entry_of_bareBreak hname
  rw [changedFiles_of_output file.return_not_mem_text hreply]
  cases hsummary : DiffSummary.ofOutput (String.ofList file.text) with
  | error fault => simp
  | ok summary =>
    simp only [ne_eq, NamedDiff.changedFiles_eq_ok_iff (hentry summary hsummary)]
    cases hread : RenamedPath.ofPrinted (String.ofList line) with
    | none =>
      rw [DiffSummary.changedFile, countEntry, hread]
      simp
    | some renamed =>
      -- the path is made of the first line, in which the break does not stand
      rw [changedFile_countEntry hread, Except.ok.injEq, NamedDiff.changedFile,
        ChangedFile.mk.injEq]
      rintro ⟨hpath, -⟩
      have hmark : mark ∈ renamed.path.toList := by
        rw [hpath, NamedDiff.path, String.toList_ofList]
        exact hmem
      have hfree := hline mark (RenamedPath.mem_of_ofPrinted hquote hread mark hmark)
      rw [hbreak] at hfree
      cases hfree

/-- A file that git prints alone is listed under its name, with what became of it and without an old
path, exactly if its counts can be read, its name has no bare break and no arrow, and the summary
line of an added or deleted file has the name in quotes or without a similarity at the end. -/
theorem changedFiles_named_iff
    (hreply : repo.git (Question.changes base head).arguments =
      .ok ⟨0, Utf8.encode file.text, err⟩) :
    repo.changedFiles base head = .ok [file.changedFile] ↔ file.IsLegible := by
  by_cases hname : ∃ c ∈ file.name, isBareBreak c = true
  · refine iff_of_false (changedFiles_ne_of_bareBreak hreply hname) fun hlegible => ?_
    obtain ⟨c, hc, hbare⟩ := hname
    rw [hlegible.unbroken c hc] at hbare
    cases hbare
  have hunbroken : ∀ c ∈ file.name, isBareBreak c = false :=
    fun c hc => Bool.eq_false_iff.mpr fun hbare => hname ⟨c, hc, hbare⟩
  have hlegible : file.IsLegible ↔ areReadable file.counts = true ∧
      ¬ RenamedPath.HasArrow file.name ∧
      (file.change = .modified ∨ isQuoted file.name = true ∨ ¬ HasSimilarity file.name) :=
    ⟨fun ⟨hreadable, _, harrow, hwhole⟩ => ⟨hreadable, harrow, hwhole⟩,
      fun ⟨hreadable, harrow, hwhole⟩ => ⟨hreadable, hunbroken, harrow, hwhole⟩⟩
  rw [changedFiles_of_output file.return_not_mem_text hreply, file.ofOutput_text hunbroken,
    hlegible, ← file.changedFile_entry_iff]
  split_ifs with hreadable
  · have hfiles : (file.recordIn { files := [file.entry] }).files = [file.entry] := by
      rw [NamedDiff.recordIn]
      split <;> rfl
    simp only [hreadable, true_and]
    exact NamedDiff.changedFiles_eq_ok_iff hfiles
  · exact iff_of_false (by simp) fun hboth => hreadable hboth.1

/-- A repository in which git prints one file. -/
def printingAlone (file : NamedDiff) : Repository where
  root := ⟨".", []⟩
  tree := .empty
  git _ := .ok { out := Utf8.encode file.text }

/-- An added file whose name has blanks, quotes, a newline and braces and ends like a similarity. -/
def quirkyDiff : NamedDiff where
  name := "dir (1)/we\"ird\n\x7bé\x7d (5%)".toList
  name_ne_nil := by decide
  change := .added 0o100644
  counts := some (3, 0)

/-- Such a file is listed under its name. -/
theorem changedFiles_quirkyDiff : (printingAlone quirkyDiff).changedFiles "main" "HEAD" = .ok [{
    path := "dir (1)/we\"ird\n\x7bé\x7d (5%)", status := .added, additions := 3,
    category := .other }] := by
  have harrow : ¬ RenamedPath.HasArrow quirkyDiff.name := by
    rintro ⟨hnewline, -⟩
    exact hnewline (by decide)
  have hlegible : quirkyDiff.IsLegible := ⟨by decide, by decide, harrow, .inr (.inl (by decide))⟩
  have hreply : (printingAlone quirkyDiff).git (Question.changes "main" "HEAD").arguments =
      .ok ⟨0, Utf8.encode quirkyDiff.text, []⟩ := rfl
  rw [(changedFiles_named_iff hreply).mpr hlegible]
  exact congrArg Except.ok (by decide +kernel)

/-- An added file whose name has a line separator. -/
def separatorDiff : NamedDiff where
  name := "a\u2028b.ts".toList
  name_ne_nil := by decide
  change := .added 0o100644
  counts := some (1, 0)

/-- Such a file is not listed under its name. -/
theorem changedFiles_separatorDiff :
    (printingAlone separatorDiff).changedFiles "main" "HEAD" ≠ .ok [{
      path := "a\u2028b.ts", status := .added, additions := 1,
      language := "typescript", category := .source }] := by
  have hreply : (printingAlone separatorDiff).git (Question.changes "main" "HEAD").arguments =
      .ok ⟨0, Utf8.encode separatorDiff.text, []⟩ := rfl
  have hfile : separatorDiff.changedFile = {
      path := "a\u2028b.ts", status := .added, additions := 1,
      language := "typescript", category := .source } := by
    decide +kernel
  rw [← hfile]
  exact changedFiles_ne_of_bareBreak hreply ⟨Char.ofNat 0x2028, by decide, by decide⟩

end Git.Repository

end ChangeImpact
