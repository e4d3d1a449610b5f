import ChangeImpact.Proofs.DeclaredName
import ChangeImpact.Proofs.ReportedLines

/-!
# Whole words

A line mentions a removed name where a word starts or ends at both ends of it. Beside a letter this
asks for a place apart from other words. An identifier may also begin or end with a dollar sign,
which is no word character: there it asks for a word character right beside the name, so such a name
is never found where it stands apart.
-/

namespace ChangeImpact

open Text

namespace RemovedName

variable {previous : Option Char} {name left right text line : List Char}

/-- The last character of a text that goes on to the left. -/
theorem getLast?_cons_or (c : Char) (left : List Char) (previous : Option Char) :
    (c :: left).getLast?.or previous = left.getLast?.or (some c) := by
  rw [List.getLast?_cons]
  cases left.getLast? <;> rfl

/-- What is found as a whole word stands in the text between two boundaries. -/
theorem exists_place_of_standsIn (hstands : standsIn name previous text = true) :
    ∃ left right, text = left ++ (name ++ right) ∧
      isBoundary (left.getLast?.or previous) name.head? = true ∧
      isBoundary name.getLast? right.head? = true := by
  induction text generalizing previous with
  | nil => cases hstands
  | cons c rest ih =>
    rw [standsIn, Bool.or_eq_true] at hstands
    obtain hhere | hlater := hstands
    · split at hhere
      · next after hafter =>
        rw [Bool.and_eq_true] at hhere
        exact ⟨[], after, (List.isPrefixOf?_eq_some_iff_append_eq.mp hafter).symm, hhere⟩
      · cases hhere
    · obtain ⟨left, right, rfl, hleft, hright⟩ := ih hlater
      refine ⟨c :: left, right, rfl, ?_, hright⟩
      rwa [getLast?_cons_or]

/-- A name between two boundaries is found as a whole word. -/
theorem standsIn_append (hname : name ≠ [])
    (hleft : isBoundary (left.getLast?.or previous) name.head? = true)
    (hright : isBoundary name.getLast? right.head? = true) :
    standsIn name previous (left ++ (name ++ right)) = true := by
  induction left generalizing previous with
  | nil =>
    have hhere := isPrefixOf?_append name right
    obtain ⟨c, name, rfl⟩ := List.exists_cons_of_ne_nil hname
    rw [List.cons_append] at hhere
    rw [List.nil_append, List.cons_append, standsIn, hhere, Bool.or_eq_true, Bool.and_eq_true]
    exact .inl ⟨hleft, hright⟩
  | cons c left ih =>
    rw [getLast?_cons_or] at hleft
    rw [List.cons_append, standsIn, Bool.or_eq_true]
    exact .inr (ih hleft)

/-- A line mentions a name exactly if the name stands between two boundaries on it. -/
theorem isMentioned_iff {removed : RemovedName} (hname : removed.name.toList ≠ []) :
    removed.isMentioned line = true ↔
      ∃ left right, line = left ++ (removed.name.toList ++ right) ∧
        isBoundary left.getLast? removed.name.toList.head? = true ∧
        isBoundary removed.name.toList.getLast? right.head? = true := by
  rw [isMentioned]
  constructor
  · intro hstands
    obtain ⟨left, right, hline, hleft, hright⟩ := exists_place_of_standsIn hstands
    rw [Option.or_none] at hleft
    exact ⟨left, right, hline, hleft, hright⟩
  · rintro ⟨left, right, rfl, hleft, hright⟩
    refine standsIn_append hname ?_ hright
    rwa [Option.or_none]

/-- A mentioned name stands on the line. -/
theorem infix_of_isMentioned {removed : RemovedName} (hmention : removed.isMentioned line = true) :
    removed.name.toList <:+: line := by
  obtain ⟨left, right, hline, -⟩ := exists_place_of_standsIn hmention
  exact ⟨left, right, by rw [hline, List.append_assoc]⟩

/-- What is read as an identifier is one. -/
theorem isIdentifier_of_identifier (hread : identifier text = some (name, right)) :
    isIdentifier name = true := by
  have hparts := (eq_of_identifier hread).1
  cases text with
  | nil => cases hread
  | cons c rest =>
    simp only [identifier] at hread
    split at hread
    case isTrue hstart =>
      cases hread
      rw [isIdentifier, Bool.and_eq_true, List.all_eq_true]
      exact ⟨hstart, hparts⟩
    case isFalse => cases hread

/-- The names of exports are identifiers. -/
theorem isIdentifier_of_mem_exportNames {text name : String} (hname : name ∈ exportNames text) :
    isIdentifier name.toList = true := by
  obtain ⟨place, after, -, hread⟩ := declares_of_mem_exportNames hname
  simp only [declaration, Scanner.bind_apply, Option.bind_eq_some_iff] at hread
  obtain ⟨⟨⟨⟩, behindExport⟩, -, ⟨isDefault, behindDefault⟩, -, ⟨isAsync, behindAsync⟩, -,
    ⟨⟨⟩, behindWord⟩, -, hidentifier⟩ := hread
  exact isIdentifier_of_identifier hidentifier

/-- An identifier has a first and a last character. -/
theorem exists_ends_of_isIdentifier (hname : isIdentifier name = true) : name ≠ [] ∧
    ∃ first last, name.head? = some first ∧ name.getLast? = some last ∧
      isIdentifierPart first = true ∧ isIdentifierPart last = true := by
  rw [isIdentifier, Bool.and_eq_true, List.all_eq_true] at hname
  obtain ⟨hstart, hparts⟩ := hname
  have hne : name ≠ [] := by
    rintro rfl
    cases hstart
  exact ⟨hne, name.head hne, name.getLast hne, List.head?_eq_some_head hne,
    List.getLast?_eq_some_getLast hne, hparts _ (List.head_mem hne),
    hparts _ (List.getLast_mem hne)⟩

/-- A word starts or ends beside a character of an identifier if no word character is beside it,
or, beside a dollar sign, if one is. -/
theorem isBoundary_iff {c : Char} (hc : isIdentifierPart c = true) (beside : Option Char) :
    isBoundary beside (some c) = true ↔ (beside.any isWord = true ↔ c = '$') := by
  have hword : isWord c = true ↔ c ≠ '$' := by
    refine ⟨?_, isWord_of_isIdentifierPart hc⟩
    rintro hword rfl
    exact absurd hword (by decide +kernel)
  rw [isBoundary, bne_iff_ne, Option.any_some, ne_eq, Bool.eq_iff_iff, hword, not_iff, ne_eq,
    not_iff_not]

/-- A boundary is one from both sides. -/
theorem isBoundary_comm (one other : Option Char) : isBoundary one other = isBoundary other one :=
  bne_comm

/-- No word character stands beside a place on a line. -/
def IsApart (left right : List Char) : Prop :=
  left.getLast?.any isWord = false ∧ right.head?.any isWord = false

/-- A name stands somewhere on a line with no word character beside it. -/
def StandsApart (name line : List Char) : Prop :=
  ∃ left right, line = left ++ (name ++ right) ∧ IsApart left right

/-- Wherever a name stands on a line, no word character is beside it. -/
def StandsOnlyApart (name line : List Char) : Prop :=
  ∀ left right, line = left ++ (name ++ right) → IsApart left right

instance (left right : List Char) : Decidable (IsApart left right) :=
  inferInstanceAs (Decidable (_ ∧ _))

/-- Whether a name stands only apart is checked place by place. -/
instance (name line : List Char) : Decidable (StandsOnlyApart name line) :=
  decidable_of_iff
    (∀ n ≤ line.length, name <+: line.drop n →
      IsApart (line.take n) (line.drop (n + name.length))) (by
      constructor
      · rintro hplaces left right rfl
        have hapart := hplaces left.length (by simp) (by simp)
        rwa [List.take_left, ← List.drop_drop, List.drop_left, List.drop_left] at hapart
      · rintro honly n - ⟨right, hright⟩
        refine honly _ _ ?_
        rw [← List.drop_drop, ← hright, List.drop_left, hright, List.take_append_drop])

/-- A name begins or ends with a dollar sign. -/
def HasDollarEnd (name : List Char) : Prop := name.head? = some '$' ∨ name.getLast? = some '$'

/-- An identifier is mentioned exactly where the characters beside it are no word characters, but
beside a dollar sign at an end of it exactly where one is. -/
theorem isMentioned_identifier_iff {removed : RemovedName}
    (hname : isIdentifier removed.name.toList = true) :
    removed.isMentioned line = true ↔
      ∃ left right, line = left ++ (removed.name.toList ++ right) ∧
        (left.getLast?.any isWord = true ↔ removed.name.toList.head? = some '$') ∧
        (right.head?.any isWord = true ↔ removed.name.toList.getLast? = some '$') := by
  obtain ⟨hne, first, last, hfirst, hlast, hfirstPart, hlastPart⟩ :=
    exists_ends_of_isIdentifier hname
  have hright (right : List Char) : isBoundary (some last) right.head? = true ↔
      (right.head?.any isWord = true ↔ last = '$') := by
    rw [isBoundary_comm, isBoundary_iff hlastPart]
  simp only [isMentioned_iff hne, hfirst, hlast, isBoundary_iff hfirstPart, hright,
    Option.some.injEq]

end RemovedName

namespace StalenessReport

open RemovedName

variable {repo : Git.Repository} {changed : List ChangedFile} {base head doc path name : String}
  {config : ScanConfig} {number : ℕ} {line : List Char}

/-- A line of a checked document has the entry of a removed export exactly if the name stands there
with no word character beside it, but with one beside a dollar sign at an end of it. So a name
without such a dollar sign is found exactly where it stands apart, and one with it is not found on
any line where it only stands apart. -/
theorem name_mem_references_iff (hname : name ∈ exportNames ((shown repo base path).getD ""))
    (hremoved : ⟨name, path⟩ ∈ RemovedName.ofChanges repo changed base head)
    (hline : IsLine repo head config doc number line) :
    let entry : StaleReference :=
      ⟨doc, number, name, s!"referenced symbol was removed from {path}"⟩
    let report := ofChanges repo changed base head config
    (entry ∈ report.references ↔
      ∃ left right, line = left ++ (name.toList ++ right) ∧
        (left.getLast?.any isWord = true ↔ name.toList.head? = some '$') ∧
        (right.head?.any isWord = true ↔ name.toList.getLast? = some '$')) ∧
      (¬ HasDollarEnd name.toList →
        (entry ∈ report.references ↔ StandsApart name.toList line)) ∧
      (HasDollarEnd name.toList → StandsOnlyApart name.toList line →
        entry ∉ report.references) := by
  intro entry report
  have hentry : entry ∈ report.references ↔
      ∃ left right, line = left ++ (name.toList ++ right) ∧
        (left.getLast?.any isWord = true ↔ name.toList.head? = some '$') ∧
        (right.head?.any isWord = true ↔ name.toList.getLast? = some '$') := by
    rw [hline.mem_references_iff]
    refine (name_mem_onLine_iff ⟨name, path⟩).trans ((and_iff_right hremoved).trans ?_)
    exact isMentioned_identifier_iff (isIdentifier_of_mem_exportNames hname)
  refine ⟨hentry, fun hdollar => ?_, fun hdollar hapart => ?_⟩
  · rw [HasDollarEnd, not_or] at hdollar
    rw [hentry]
    simp only [hdollar.1, hdollar.2, iff_false, Bool.not_eq_true, StandsApart, IsApart]
  · rw [hentry]
    rintro ⟨left, right, hplace, hleft, hright⟩
    obtain ⟨hleftApart, hrightApart⟩ := hapart left right hplace
    rw [hleftApart] at hleft
    rw [hrightApart] at hright
    obtain hfirst | hlast := hdollar
    · exact absurd (hleft.mpr hfirst) Bool.false_ne_true
    · exact absurd (hright.mpr hlast) Bool.false_ne_true

/-- A repository in which a file loses two exports, one of which begins with a dollar sign. -/
def withoutStore (document : String) : Git.Repository :=
  documented document
    [("main", "a.ts", "export const $store = 1;\nexport function dropMe() {}\n"),
      ("HEAD", "a.ts", "")]

/-- That file, as a modified one. -/
def storeFile : ChangedFile := changedSource "a.ts" .modified none

/-- Of two names that stand apart, the one that begins with a dollar sign is not found. -/
theorem name_mem_references_iff_dollar :
    let repo := withoutStore "Use $store, then dropMe()."
    let line := "Use $store, then dropMe().".toList
    let report := ofChanges repo [storeFile] "main" "HEAD" {}
    IsLine repo "HEAD" {} "README.md" 1 line ∧
      StandsApart "dropMe".toList line ∧
      ⟨"README.md", 1, "dropMe", "referenced symbol was removed from a.ts"⟩ ∈ report.references ∧
      StandsOnlyApart "$store".toList line ∧
      ⟨"README.md", 1, "$store", "referenced symbol was removed from a.ts"⟩ ∉
        report.references := by
  intro repo line report
  have hline : IsLine repo "HEAD" {} "README.md" 1 line := by decide +kernel
  have hnames : ∀ name ∈ ["$store", "dropMe"],
      name ∈ exportNames ((shown repo "main" "a.ts").getD "") ∧
        ⟨name, "a.ts"⟩ ∈ RemovedName.ofChanges repo [storeFile] "main" "HEAD" := by
    decide +kernel
  obtain ⟨hstore, hstoreRemoved⟩ := hnames "$store" (by decide)
  obtain ⟨hdropMe, hdropMeRemoved⟩ := hnames "dropMe" (by decide)
  have hplain : ¬ HasDollarEnd "dropMe".toList := by simp [HasDollarEnd]
  have hapart : StandsApart "dropMe".toList line :=
    ⟨"Use $store, then ".toList, "().".toList, by decide +kernel, by decide +kernel⟩
  have honly : StandsOnlyApart "$store".toList line := by decide +kernel
  exact ⟨hline, hapart,
    ((name_mem_references_iff hdropMe hdropMeRemoved hline).2.1 hplain).mpr hapart, honly,
    (name_mem_references_iff hstore hstoreRemoved hline).2.2 (.inl rfl) honly⟩

/-- A removed export whose name begins with a dollar sign is not found between blanks, and is found
in a longer word. -/
theorem references_of_dollar_name :
    let apart := "Use $store here."
    let inWord := "Use a$store here."
    (∀ document ∈ [apart, inWord],
      "$store" ∈ exportNames ((shown (withoutStore document) "main" "a.ts").getD "") ∧
      ⟨"$store", "a.ts"⟩ ∈
        RemovedName.ofChanges (withoutStore document) [storeFile] "main" "HEAD" ∧
      IsLine (withoutStore document) "HEAD" {} "README.md" 1 document.toList) ∧
    apart.toList = "Use ".toList ++ ("$store".toList ++ " here.".toList) ∧
    (ofChanges (withoutStore apart) [storeFile] "main" "HEAD" {}).references = [] ∧
    inWord.toList = "Use a".toList ++ ("$store".toList ++ " here.".toList) ∧
    (ofChanges (withoutStore inWord) [storeFile] "main" "HEAD" {}).references =
      [⟨"README.md", 1, "$store", "referenced symbol was removed from a.ts"⟩] := by
  decide +kernel

end StalenessReport

end ChangeImpact
