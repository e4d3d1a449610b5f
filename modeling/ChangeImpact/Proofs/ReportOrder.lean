import ChangeImpact.Proofs.Outcome
import ChangeImpact.Proofs.WholeWord

/-!
# The order of a report

A report goes through its documents in ascending order and through each from its first line to its
last. On one line come the deleted files, then the renamed ones, then the removed names, each kind
in the order of the change set. Every reference names a line of a checked document on which its text
stands.
-/

namespace ChangeImpact

open Text

/-- Where one item of a list without repetitions yields anything, the list yields what it does. -/
theorem flatMap_eq_of_nodup {α β : Type} {items : List α} {a : α} {f : α → List β}
    (hitems : items.Nodup) (ha : a ∈ items) (hothers : ∀ b ∈ items, b ≠ a → f b = []) :
    items.flatMap f = f a := by
  induction items with
  | nil => cases ha
  | cons b items ih =>
    rw [List.nodup_cons] at hitems
    rw [List.forall_mem_cons] at hothers
    obtain ⟨hb, hothers⟩ := hothers
    rw [List.flatMap_cons]
    obtain rfl | ha := List.mem_cons.mp ha
    · have hrest : items.flatMap f = [] :=
        List.flatMap_eq_nil_iff.mpr fun c hc => hothers c hc (ne_of_mem_of_not_mem hc hitems.1)
      rw [hrest, List.append_nil]
    · rw [hb (ne_of_mem_of_not_mem ha hitems.1).symm, List.nil_append, ih hitems.2 ha hothers]

namespace StalenessReport

variable {repo : Git.Repository} {changed : List ChangedFile} {base head doc : String}
  {config : ScanConfig} {stale : Stale} {reference : StaleReference} {number : ℕ}
  {line : List Char}

/-! ### What one line has -/

/-- The entry of a deleted file whose path stands on a line. -/
def deletedEntry (doc : String) (number : ℕ) (line : List Char) (file : ChangedFile) :
    List StaleReference :=
  if file.status = .deleted ∧ file.path.toList <:+: line then
    [⟨doc, number, file.path, "referenced file was deleted"⟩]
  else []

/-- The entry of a renamed file whose old path stands on a line. -/
def renamedEntry (doc : String) (number : ℕ) (line : List Char) (file : ChangedFile) :
    List StaleReference :=
  match file.oldPath with
  | some old =>
    if file.status = .renamed ∧ old ≠ "" ∧ old.toList <:+: line then
      [⟨doc, number, old, s!"referenced file was renamed to {file.path}"⟩]
    else []
  | none => []

/-- The entries of the names that a file takes along and that a line mentions. -/
def nameEntries (repo : Git.Repository) (base head doc : String) (number : ℕ) (line : List Char)
    (file : ChangedFile) : List StaleReference :=
  ((RemovedName.ofFile repo base head file).filter (·.isMentioned line)).map fun removed =>
    ⟨doc, number, removed.name, s!"referenced symbol was removed from {removed.sourceFile}"⟩

/-- The entries of the deleted files on a line are in the order of the change set. -/
theorem map_filter_deletedPaths :
    ((deletedPaths changed).filter fun path => contains path.toList line).map (fun path =>
        (⟨doc, number, path, "referenced file was deleted"⟩ : StaleReference)) =
      changed.flatMap (deletedEntry doc number line) := by
  induction changed with
  | nil => rfl
  | cons file changed ih =>
    rw [List.flatMap_cons, ← ih, deletedPaths, deletedPaths, deletedEntry]
    by_cases hstatus : file.status = .deleted
    · by_cases hline : file.path.toList <:+: line
      · simp [hstatus, hline, contains_iff_infix]
      · simp [hstatus, hline, contains_iff_infix]
    · simp [hstatus]

/-- So are those of the renamed files. -/
theorem map_filter_renamedPaths :
    ((renamedPaths changed).filter fun (old, _) => contains old.toList line).map (fun (old, new) =>
        (⟨doc, number, old, s!"referenced file was renamed to {new}"⟩ : StaleReference)) =
      changed.flatMap (renamedEntry doc number line) := by
  induction changed with
  | nil => rfl
  | cons file changed ih =>
    rw [List.flatMap_cons, ← ih, renamedPaths, renamedPaths, renamedEntry, List.filterMap_cons]
    cases hold : file.oldPath with
    | none => simp
    | some old =>
      by_cases hstatus : file.status = .renamed
      · by_cases hempty : old = ""
        · simp [hstatus, hempty]
        · by_cases hline : old.toList <:+: line
          · simp [hstatus, hempty, hline, contains_iff_infix]
          · simp [hstatus, hempty, hline, contains_iff_infix]
      · simp [hstatus]

/-- A line has the entries of the deleted files, of the renamed ones and of the removed names, each
kind in the order of the change set. -/
theorem onLine_ofChanges (repo : Git.Repository) (changed : List ChangedFile)
    (base head doc : String) (number : ℕ) (line : List Char) :
    onLine (Stale.ofChanges repo changed base head) doc number line =
      changed.flatMap (deletedEntry doc number line) ++
        changed.flatMap (renamedEntry doc number line) ++
        changed.flatMap (nameEntries repo base head doc number line) := by
  rw [← map_filter_deletedPaths, ← map_filter_renamedPaths]
  simp only [onLine, Stale.ofChanges, RemovedName.ofChanges, List.filter_flatMap, List.map_flatMap]
  rfl

/-- The text of every entry of a line stands on the line. -/
theorem infix_of_mem_onLine (hmem : reference ∈ onLine stale doc number line) :
    reference.reference.toList <:+: line := by
  simp only [onLine, List.mem_append, List.mem_map, List.mem_filter, contains_iff_infix] at hmem
  obtain (⟨path, ⟨-, hline⟩, rfl⟩ | ⟨paths, ⟨-, hline⟩, rfl⟩) | ⟨removed, ⟨-, hline⟩, rfl⟩ := hmem
  · exact hline
  · exact hline
  · exact RemovedName.infix_of_isMentioned hline

/-! ### Where the references of a report stand -/

/-- A reference stands in an earlier document than another one, or in the same document and on no
later line. -/
def IsBefore (first second : StaleReference) : Prop :=
  first.docFile < second.docFile ∨ first.docFile = second.docFile ∧ first.line ≤ second.line

/-- The checked files are the documents of the repository. -/
theorem checkedFiles_ofChanges :
    (ofChanges repo changed base head config).checkedFiles = documents repo config := by
  rw [ofChanges_eq]

/-- The documents are checked in ascending order, each once. -/
theorem pairwise_documents (htree : repo.tree.IsTree) :
    (documents repo config).Pairwise (· < ·) := by
  have hdocs : (documents repo config).Nodup :=
    (htree.of_root repo.root.resolved).nodup_collectFiles docPatterns config
  have hascending : (documents repo config).Pairwise (· ≤ ·) := pairwise_collectFiles _ _ _
  exact hascending.imp₂ (fun _ _ hle hne => lt_of_le_of_ne hle hne) hdocs

/-- The lines of a text are numbered in ascending order. -/
theorem pairwise_zipIdx (lines : List (List Char)) :
    (lines.zipIdx 1).Pairwise fun first second => first.2 < second.2 := by
  have hnumbers : ((lines.zipIdx 1).map Prod.snd).Pairwise (· < ·) := by
    rw [List.zipIdx_map_snd]
    exact List.pairwise_lt_range'
  exact List.pairwise_map.mp hnumbers

/-- The references in a text stand on its lines from the first to the last. -/
theorem pairwise_inText (text : String) : (inText stale doc text).Pairwise IsBefore := by
  rw [inText, List.pairwise_flatMap]
  constructor
  · rintro ⟨line, number⟩ -
    refine List.pairwise_of_forall_mem_list fun first hfirst second hsecond => .inr ?_
    obtain ⟨hdoc, hnumber⟩ := place_of_mem_onLine hfirst
    obtain ⟨hdoc', hnumber'⟩ := place_of_mem_onLine hsecond
    exact ⟨hdoc.trans hdoc'.symm, (hnumber.trans hnumber'.symm).le⟩
  · refine (pairwise_zipIdx _).imp fun {item next} hlt first hfirst second hsecond => .inr ?_
    obtain ⟨hdoc, hnumber⟩ := place_of_mem_onLine hfirst
    obtain ⟨hdoc', hnumber'⟩ := place_of_mem_onLine hsecond
    refine ⟨hdoc.trans hdoc'.symm, ?_⟩
    rw [hnumber, hnumber']
    exact hlt.le

/-- The references of a report stand in its documents from the first to the last. -/
theorem pairwise_references (htree : repo.tree.IsTree) :
    (ofChanges repo changed base head config).references.Pairwise IsBefore := by
  rw [ofChanges_eq]
  dsimp only
  rw [List.pairwise_flatMap]
  constructor
  · intro doc _
    rw [inDocument]
    split
    · exact pairwise_inText _
    · exact List.Pairwise.nil
  · refine (pairwise_documents htree).imp fun {doc next} hlt first hfirst second hsecond => .inl ?_
    rwa [(place_of_mem_inDocument hfirst).1, (place_of_mem_inDocument hsecond).1]

/-- The references in a text at one place are those of the line there. -/
theorem filter_inText {text : String} (hone : 1 ≤ number)
    (hline : (newlineParts text.toList)[number - 1]? = some line) :
    (inText stale doc text).filter
        (fun reference => reference.docFile = doc ∧ reference.line = number) =
      onLine stale doc number line := by
  have hmem : (line, number) ∈ (newlineParts text.toList).zipIdx 1 :=
    List.mem_zipIdx_iff_le_and_getElem?_sub.mpr ⟨hone, hline⟩
  have hnodup : ((newlineParts text.toList).zipIdx 1).Nodup :=
    (pairwise_zipIdx _).imp fun hlt heq => hlt.ne (congrArg Prod.snd heq)
  rw [inText, List.filter_flatMap, flatMap_eq_of_nodup hnodup hmem]
  · refine List.filter_eq_self.mpr fun reference hreference => ?_
    exact decide_eq_true (place_of_mem_onLine hreference)
  · rintro ⟨other, count⟩ hother hne
    refine List.filter_eq_nil_iff.mpr fun reference hreference hplace => hne ?_
    -- A line with the same number is the same line.
    obtain rfl : count = number :=
      (place_of_mem_onLine hreference).2.symm.trans (of_decide_eq_true hplace).2
    have hsame : (newlineParts text.toList)[count - 1]? = some other :=
      (List.mem_zipIdx_iff_le_and_getElem?_sub.mp hother).2
    rw [Option.some.inj (hsame.symm.trans hline)]

/-- The references of a report at one place are those of the line there. -/
theorem filter_references (htree : repo.tree.IsTree)
    (hline : IsLine repo head config doc number line) :
    (ofChanges repo changed base head config).references.filter
        (fun reference => reference.docFile = doc ∧ reference.line = number) =
      onLine (Stale.ofChanges repo changed base head) doc number line := by
  have hdocs : (documents repo config).Nodup := (pairwise_documents htree).imp LT.lt.ne
  obtain ⟨hchecked, text, htext, hone, hread⟩ := hline
  rw [ofChanges_eq]
  dsimp only
  rw [List.filter_flatMap, flatMap_eq_of_nodup hdocs hchecked]
  · rw [inDocument, htext]
    exact filter_inText hone hread
  · intro other _ hne
    refine List.filter_eq_nil_iff.mpr fun reference hreference hplace => hne ?_
    exact (place_of_mem_inDocument hreference).1.symm.trans (of_decide_eq_true hplace).1

/-- The references of a report are in the order of documents and lines, and those on one line are
the entries of deleted files, of renamed files and of removed names, each kind in the order of the
change set. Every reference names a checked document and the number of a line of it, as it is in the
working tree, or at the head ref where it cannot be read there, and its text stands on that line. -/
theorem references_in_order (htree : repo.tree.IsTree) :
    let report := ofChanges repo changed base head config
    report.references.Pairwise IsBefore ∧
    (∀ doc number line, IsLine repo head config doc number line →
      report.references.filter
          (fun reference => reference.docFile = doc ∧ reference.line = number) =
        changed.flatMap (deletedEntry doc number line) ++
          changed.flatMap (renamedEntry doc number line) ++
          changed.flatMap (nameEntries repo base head doc number line)) ∧
    ∀ reference ∈ report.references, reference.docFile ∈ report.checkedFiles ∧
      ∃ text line,
        (treeText repo reference.docFile = some text ∨
          treeText repo reference.docFile = none ∧
            repo.content head reference.docFile = .ok text) ∧
        1 ≤ reference.line ∧ reference.line ≤ (newlineParts text.toList).length ∧
        (newlineParts text.toList)[reference.line - 1]? = some line ∧
        reference.reference.toList <:+: line := by
  intro report
  refine ⟨pairwise_references htree, fun doc number line hline => ?_, fun reference hmem => ?_⟩
  · rw [filter_references htree hline, onLine_ofChanges]
  · obtain ⟨line, ⟨hchecked, text, htext, hone, hline⟩, hentry⟩ := mem_references_iff.mp hmem
    obtain ⟨hlength, -⟩ := List.getElem?_eq_some_iff.mp hline
    refine ⟨?_, text, line, ?_, hone, by omega, hline, infix_of_mem_onLine hentry⟩
    · rwa [checkedFiles_ofChanges]
    · rw [docText_eq, Option.or_eq_some_iff] at htext
      exact htext.imp_right (And.imp_right eq_ok_of_toOption)

/-- On the second line of a document stand a deleted file, a renamed one and a removed name. They
are listed in this order, though the deleted file comes last in the change set. -/
theorem references_in_order_kinds :
    let repo := documented "# Files\nOld: old.ts, gone.ts (gone)." []
    let changed := [changedSource "new.ts" .renamed (some "old.ts"),
      changedSource "gone.ts" .deleted none]
    let report := ofChanges repo changed "main" "HEAD" {}
    repo.tree.IsTree ∧ report.references.Pairwise IsBefore ∧
      report.references.filter
          (fun reference => reference.docFile = "README.md" ∧ reference.line = 2) =
        [⟨"README.md", 2, "gone.ts", "referenced file was deleted"⟩,
          ⟨"README.md", 2, "old.ts", "referenced file was renamed to new.ts"⟩,
          ⟨"README.md", 2, "gone", "referenced symbol was removed from gone.ts"⟩] := by
  intro repo changed report
  have htree : repo.tree.IsTree := .file ⟨by decide, by decide⟩ (by decide) .empty
  have hline : IsLine repo "HEAD" {} "README.md" 2 "Old: old.ts, gone.ts (gone).".toList := by
    decide +kernel
  obtain ⟨hordered, hplaces, -⟩ := references_in_order htree
  refine ⟨htree, hordered, (hplaces _ _ _ hline).trans ?_⟩
  decide +kernel

end StalenessReport

end ChangeImpact
