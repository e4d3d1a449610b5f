import ChangeImpact.Proofs.Breaking
import ChangeImpact.Proofs.Scanning
import ChangeImpact.Proofs.StaleReferences

/-!
# Lines of checked documents

A report is made of what stands on the lines of the checked documents, and the place that a
reference names is the line that it comes from. So whether an entry is in a report is settled by one
line: the entry is there for a path that stands on the line, or for a removed name that the line
mentions.
-/

namespace ChangeImpact

open Text

namespace RemovedName

/-- What git shows of a file is its content at the ref, where git gives it. -/
theorem shown_eq (repo : Git.Repository) (ref path : String) :
    shown repo ref path = (repo.content ref path).toOption := by
  rw [shown]
  cases hcontent : repo.content ref path with
  | ok text => rw [Git.Repository.contentIfAny_of_ok hcontent]; rfl
  | error fault =>
    obtain hnone | herror := Git.Repository.contentIfAny_of_error hcontent
    · rw [hnone]; rfl
    · rw [herror]; rfl

end RemovedName

namespace StalenessReport

variable {repo : Git.Repository} {changed : List ChangedFile} {base head doc path : String}
  {config : ScanConfig} {stale : Stale} {reference : StaleReference} {number : ℕ}
  {line other : List Char}

/-- The text of a document in the working tree, if it is a file and valid text. -/
def treeText (repo : Git.Repository) (path : String) : Option String :=
  match repo.root.locate repo.tree (Path.segments path) with
  | .ok (.file content) => (readText content).toOption
  | _ => none

/-- A document is read from the working tree, and at the head ref where it cannot be read there. -/
theorem docText_eq (repo : Git.Repository) (head path : String) :
    docText repo head path = (treeText repo path).or (repo.content head path).toOption := by
  rw [docText, treeText, ← RemovedName.shown_eq]
  cases repo.root.locate repo.tree (Path.segments path) with
  | error fault => rfl
  | ok entry =>
    cases entry with
    | folder inside => rfl
    | file content =>
      dsimp only
      cases readText content with
      | ok text => rfl
      | error invalid => rfl

/-- A line of a checked document, with its number, counted from one. -/
structure IsLine (repo : Git.Repository) (head : String) (config : ScanConfig) (doc : String)
    (number : ℕ) (line : List Char) : Prop where
  checked : doc ∈ documents repo config
  read : ∃ text, docText repo head doc = some text ∧ 1 ≤ number ∧
    (newlineParts text.toList)[number - 1]? = some line

/-- Whether a line is at a place is seen by reading the document. -/
instance (repo : Git.Repository) (head : String) (config : ScanConfig) (doc : String) (number : ℕ)
    (line : List Char) : Decidable (IsLine repo head config doc number line) :=
  decidable_of_iff
    (doc ∈ documents repo config ∧ ∃ text ∈ docText repo head doc, 1 ≤ number ∧
      (newlineParts text.toList)[number - 1]? = some line)
    ⟨fun ⟨hchecked, hread⟩ => ⟨hchecked, hread⟩, fun ⟨hchecked, hread⟩ => ⟨hchecked, hread⟩⟩

/-- There is one line at a place. -/
theorem IsLine.eq (hline : IsLine repo head config doc number line)
    (hother : IsLine repo head config doc number other) : line = other := by
  obtain ⟨text, htext, -, hread⟩ := hline.read
  obtain ⟨text', htext', -, hread'⟩ := hother.read
  rw [htext] at htext'
  cases htext'
  exact Option.some.inj (hread.symm.trans hread')

/-- A report has the references on the lines of the checked documents. -/
theorem mem_references_iff :
    reference ∈ (ofChanges repo changed base head config).references ↔
      ∃ line, IsLine repo head config reference.docFile reference.line line ∧
        reference ∈ onLine (Stale.ofChanges repo changed base head) reference.docFile
          reference.line line := by
  rw [ofChanges_eq]
  dsimp only
  rw [List.mem_flatMap]
  constructor
  · rintro ⟨doc, hdoc, hmem⟩
    rw [inDocument] at hmem
    split at hmem
    · next text htext =>
      obtain ⟨⟨line, number⟩, hline, hmem⟩ := List.mem_flatMap.mp hmem
      obtain ⟨rfl, rfl⟩ := place_of_mem_onLine hmem
      exact ⟨line, ⟨hdoc, text, htext, List.mem_zipIdx_iff_le_and_getElem?_sub.mp hline⟩, hmem⟩
    · cases hmem
  · rintro ⟨line, ⟨hdoc, text, htext, hline⟩, hmem⟩
    refine ⟨reference.docFile, hdoc, ?_⟩
    rw [inDocument, htext]
    exact List.mem_flatMap.mpr
      ⟨(line, reference.line), List.mem_zipIdx_iff_le_and_getElem?_sub.mpr hline, hmem⟩

/-- Whether an entry for a place is in a report is settled by the line at that place. -/
theorem IsLine.mem_references_iff (hline : IsLine repo head config doc number line)
    (text reason : String) :
    ⟨doc, number, text, reason⟩ ∈ (ofChanges repo changed base head config).references ↔
      ⟨doc, number, text, reason⟩ ∈
        onLine (Stale.ofChanges repo changed base head) doc number line := by
  rw [StalenessReport.mem_references_iff]
  constructor
  · rintro ⟨found, hfound, hmem⟩
    rwa [hline.eq hfound]
  · exact fun hmem => ⟨line, hline, hmem⟩

/-- A line has the entry of a renamed file exactly if the old path stands on it. -/
theorem renamed_mem_onLine_iff {old new : String} :
    ⟨doc, number, old, s!"referenced file was renamed to {new}"⟩ ∈ onLine stale doc number line ↔
      (old, new) ∈ stale.renamed ∧ old.toList <:+: line := by
  rw [onLine, List.mem_append, List.mem_append, ← contains_iff_infix]
  constructor
  · rintro ((hmem | hmem) | hmem)
    · obtain ⟨path, -, heq⟩ := List.mem_map.mp hmem
      exact absurd (congrArg StaleReference.reason heq) (reasons_ne new path).1
    · obtain ⟨⟨found, target⟩, hfound, heq⟩ := List.mem_map.mp hmem
      have hold : found = old := congrArg StaleReference.reference heq
      have hnew : target = new := (String.append_right_inj "referenced file was renamed to ").mp
        (congrArg StaleReference.reason heq)
      subst hold hnew
      exact List.mem_filter.mp hfound
    · obtain ⟨removed, -, heq⟩ := List.mem_map.mp hmem
      exact absurd (congrArg StaleReference.reason heq).symm (reasons_ne new removed.sourceFile).2.2
  · intro hmem
    exact .inl (.inr (List.mem_map.mpr ⟨(old, new), List.mem_filter.mpr hmem, rfl⟩))

/-- A line has the entry of a removed name exactly if it mentions the name. -/
theorem name_mem_onLine_iff (removed : RemovedName) :
    ⟨doc, number, removed.name, s!"referenced symbol was removed from {removed.sourceFile}"⟩ ∈
        onLine stale doc number line ↔
      removed ∈ stale.names ∧ removed.isMentioned line = true := by
  rw [onLine, List.mem_append, List.mem_append]
  constructor
  · rintro ((hmem | hmem) | hmem)
    · obtain ⟨path, -, heq⟩ := List.mem_map.mp hmem
      exact absurd (congrArg StaleReference.reason heq) (reasons_ne path removed.sourceFile).2.1
    · obtain ⟨⟨old, new⟩, -, heq⟩ := List.mem_map.mp hmem
      exact absurd (congrArg StaleReference.reason heq) (reasons_ne new removed.sourceFile).2.2
    · obtain ⟨found, hfound, heq⟩ := List.mem_map.mp hmem
      obtain rfl := nameReference_injective doc number heq
      exact List.mem_filter.mp hfound
  · intro hmem
    exact .inr (List.mem_map.mpr ⟨removed, List.mem_filter.mpr hmem, rfl⟩)

/-- A repository with one document, in which git shows files with a ref, a path and a text each. -/
def documented (document : String) (files : List (String × String × String)) : Git.Repository where
  root := ⟨".", []⟩
  tree := .file "README.md" (Utf8.encode document.toList) .empty
  git arguments :=
    match files.find? fun (ref, path, _) =>
      arguments = Git.Question.arguments (.content ref path) with
    | some (_, _, text) => .ok { out := Utf8.encode text.toList }
    | none => .ok { status := 128, err := Utf8.encode "fatal: unable to read object".toList }

/-- A source file of a change set. -/
def changedSource (path : String) (status : FileStatus) (oldPath : Option String) : ChangedFile :=
  { path := path, status := status, oldPath := oldPath, category := .source }

end StalenessReport

end ChangeImpact
