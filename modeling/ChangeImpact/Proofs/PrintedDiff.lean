import ChangeImpact.Change.Classify
import ChangeImpact.Change.Summary
import ChangeImpact.Proofs.PrintedOutput
import ChangeImpact.Proofs.PrintedPath
import Mathlib.Algebra.Group.Nat.Defs

/-!
# Reading the lines of a printed diff

A diff is printed as one count line for each file, followed by summary lines for the files that were
created, deleted, renamed or copied or whose mode changed. A count line is read as the entry of its
file, unless a count has more digits than a number that is read may have, and a summary line records
the printed path under its action. No line is broken where it is printed.
-/

namespace ChangeImpact

open Text

/-- How a path is printed: alone, or together with the old path of the file. -/
inductive IsPrintedName (new : PlainPath) : Option PlainPath → List Char → Prop
  | alone : IsPrintedName new none new.chars
  | pair {old : PlainPath} {printed : List Char}
    (hprinted : RenamedPath.IsPrintedPair old.chars new.chars printed) :
    IsPrintedName new (some old) printed

namespace IsPrintedName

variable {new : PlainPath} {old? : Option PlainPath} {printed : List Char}

/-- Printed paths consist of plain characters, spaces and braces. -/
theorem isPlain_of_mem (hprinted : IsPrintedName new old? printed) :
    ∀ c ∈ printed, isPlain c = true ∨ c = ' ' ∨ c = '\x7b' ∨ c = '\x7d' := by
  cases hprinted with
  | alone => exact fun c hc => .inl (new.isPlain_of_mem c hc)
  | pair hprinted => exact hprinted.isPlain_of_mem

/-- A printed path starts with another character than a quote. -/
theorem exists_cons (hprinted : IsPrintedName new old? printed) :
    ∃ c rest, printed = c :: rest ∧ c ≠ '"' := by
  cases hprinted with
  | alone =>
    obtain ⟨c, rest, hchars⟩ := List.exists_cons_of_ne_nil new.chars_ne_nil
    have hquote := new.not_mem (c := '"') (by decide)
    rw [hchars] at hquote
    exact ⟨c, rest, hchars, fun hc => hquote (by simp [hc])⟩
  | pair hprinted =>
    obtain ⟨c, left, right, hpair, -, hc⟩ := hprinted.exists_arrow
    exact ⟨c, _, hpair, hc⟩

/-- Printed paths are not quoted. -/
theorem unquote (hprinted : IsPrintedName new old? printed) :
    Git.unquote (String.ofList printed) = some (String.ofList printed) := by
  obtain ⟨c, rest, rfl, hc⟩ := hprinted.exists_cons
  refine Git.unquote_eq_self fun hhead => hc ?_
  simpa using hhead

/-- A printed path stands for the new path and the old path, if there is one. -/
theorem ofPrinted (hprinted : IsPrintedName new old? printed) :
    RenamedPath.ofPrinted (String.ofList printed) =
      some ⟨new.text, old?.map PlainPath.text⟩ := by
  cases hprinted with
  | alone => exact RenamedPath.ofPrinted_text new
  | pair hprinted => exact RenamedPath.ofPrinted_pair hprinted

end IsPrintedName

namespace FileDiff

/-- What became of a file, with the modes and the similarity that are printed. -/
inductive Outcome
  | added (mode : ℕ)
  | deleted (mode : ℕ)
  | modified (modes : Option (ℕ × ℕ))
  | renamed (old : PlainPath) (similarity : ℕ) (modes : Option (ℕ × ℕ))
  | copied (old : PlainPath) (similarity : ℕ) (modes : Option (ℕ × ℕ))

namespace Outcome

/-- Where a renamed or copied file came from. -/
def oldPath? : Outcome → Option PlainPath
  | added _ | deleted _ | modified _ => none
  | renamed old _ _ | copied old _ _ => some old

/-- The status of the changed file. -/
def status : Outcome → FileStatus
  | added _ => .added
  | deleted _ => .deleted
  | modified _ => .modified
  | renamed _ _ _ => .renamed
  | copied _ _ _ => .copied

/-- The action that the summary names. -/
def action? : Outcome → Option SummaryAction
  | added _ => some .create
  | deleted _ => some .delete
  | modified _ => none
  | renamed _ _ _ => some .rename
  | copied _ _ _ => some .copy

end Outcome

end FileDiff

/-- One file of a diff that is printed. -/
structure FileDiff where
  path : PlainPath
  outcome : FileDiff.Outcome
  /-- The lines added and deleted; none for a binary file. -/
  counts : Option (ℕ × ℕ)
  printed : List Char
  isPrinted : IsPrintedName path outcome.oldPath? printed

namespace FileDiff

/-- The digits of a file mode. -/
def modeDigits (mode : ℕ) : List Char := Nat.toDigits 8 mode

/-- The column of a line count, with a hyphen for a binary file. -/
def column : Option ℕ → List Char
  | none => ['-']
  | some n => decimal n

/-- A count line for any printed path. -/
def countColumns (counts : Option (ℕ × ℕ)) (printed : List Char) : List Char :=
  column (counts.map Prod.fst) ++ '\t' :: (column (counts.map Prod.snd) ++ '\t' :: printed)

/-- The line with the counts of a file. -/
def countLine (file : FileDiff) : List Char :=
  column (file.counts.map Prod.fst) ++
    '\t' :: (column (file.counts.map Prod.snd) ++ '\t' :: file.printed)

/-- A summary line. -/
def summaryLine (word : String) (text : List Char) : List Char :=
  ' ' :: (word.toList ++ ' ' :: text)

/-- A path behind the mode of the file. -/
def behindMode (mode : ℕ) (printed : List Char) : List Char :=
  "mode ".toList ++ (modeDigits mode ++ (" ".toList ++ printed))

/-- A path before the similarity of both files. -/
def beforeSimilarity (similarity : ℕ) (printed : List Char) : List Char :=
  printed ++ ' ' :: '(' :: (decimal similarity ++ ['%', ')'])

/-- The line for a change of the mode, if there is one. -/
def modeLine (modes : Option (ℕ × ℕ)) (place : List Char) : List (List Char) :=
  (modes.map fun change =>
    summaryLine "mode" ("change ".toList ++
      (modeDigits change.1 ++ (RenamedPath.arrow ++ (modeDigits change.2 ++ place))))).toList

/-- The summary lines of a file. -/
def summaryLines (file : FileDiff) : List (List Char) :=
  match file.outcome with
  | .added mode => [summaryLine "create" (behindMode mode file.printed)]
  | .deleted mode => [summaryLine "delete" (behindMode mode file.printed)]
  | .modified modes => modeLine modes (' ' :: file.printed)
  | .renamed _ similarity modes =>
    summaryLine "rename" (beforeSimilarity similarity file.printed) :: modeLine modes []
  | .copied _ similarity modes =>
    summaryLine "copy" (beforeSimilarity similarity file.printed) :: modeLine modes []

/-- What is printed for a diff. -/
def diffText (files : List FileDiff) : List Char :=
  (files.map countLine ++ files.flatMap summaryLines).flatMap (· ++ ['\n'])

/-- The changed file that a listing has for a file of a diff. -/
def changedFile (file : FileDiff) : ChangedFile where
  path := file.path.text
  status := file.outcome.status
  oldPath := file.outcome.oldPath?.map PlainPath.text
  additions := (file.counts.map Prod.fst).getD 0
  deletions := (file.counts.map Prod.snd).getD 0
  language := detectLanguage file.path.text
  category := categorize file.path.text

/-- Whether the digits of two counts can be read. -/
def areReadable (counts : Option (ℕ × ℕ)) : Bool :=
  counts.all fun counts =>
    (decimal counts.1).length ≤ maxIntegerDigits && (decimal counts.2).length ≤ maxIntegerDigits

/-- Whether the digits of both counts can be read. -/
def isReadable (file : FileDiff) : Bool :=
  file.counts.all fun counts =>
    (decimal counts.1).length ≤ maxIntegerDigits && (decimal counts.2).length ≤ maxIntegerDigits

/-- Whether the line counts of a file fit into the 64 bits in which git counts lines. -/
def IsCounted (file : FileDiff) : Prop :=
  ∀ counts ∈ file.counts, counts.1 < 2 ^ 64 ∧ counts.2 < 2 ^ 64

instance (file : FileDiff) : Decidable file.IsCounted :=
  inferInstanceAs (Decidable (∀ counts ∈ file.counts, _))

/-- A count that git prints has few enough digits to be read. -/
theorem length_decimal_le_of_counted {count : ℕ} (hcount : count < 2 ^ 64) :
    (decimal count).length ≤ maxIntegerDigits := by
  have hdigits : (decimal count).length ≤ 20 := by
    rw [decimal, Nat.length_toDigits_le_iff (by decide) (by decide)]
    omega
  exact hdigits.trans (by decide)

/-- The counts that git prints can be read. -/
theorem IsCounted.isReadable {file : FileDiff} (hcounted : file.IsCounted) :
    file.isReadable = true := by
  rw [FileDiff.isReadable, Option.all_eq_true]
  intro counts hcounts
  obtain ⟨hadded, hdeleted⟩ := hcounted counts hcounts
  simp only [length_decimal_le_of_counted hadded, length_decimal_le_of_counted hdeleted,
    decide_true, Bool.and_self]

/-- The printed path as a string. -/
def printedText (file : FileDiff) : String := String.ofList file.printed

/-- The entry of a count line for any path. -/
def countEntry (counts : Option (ℕ × ℕ)) (path : String) : FileCount where
  file := path
  insertions := ((counts.map Prod.fst).getD 0 : ℕ)
  deletions := ((counts.map Prod.snd).getD 0 : ℕ)
  binary := counts.isNone

/-- The entry of the count line. -/
def entry (file : FileDiff) : FileCount where
  file := file.printedText
  insertions := ((file.counts.map Prod.fst).getD 0 : ℕ)
  deletions := ((file.counts.map Prod.snd).getD 0 : ℕ)
  binary := file.counts.isNone

/-- Files that are printed alike have the same new path. -/
theorem path_eq_of_printedText_eq {first second : FileDiff}
    (hprinted : first.printedText = second.printedText) : first.path.text = second.path.text := by
  have hfirst := first.isPrinted.ofPrinted
  have hsecond := second.isPrinted.ofPrinted
  rw [printedText, printedText] at hprinted
  rw [hprinted, hsecond, Option.some.injEq, RenamedPath.mk.injEq] at hfirst
  exact hfirst.1.symm

/-- The summary with the action of a file recorded. -/
def recordIn (file : FileDiff) (summary : DiffSummary) : DiffSummary :=
  match file.outcome.action? with
  | some found => summary.record found file.printedText
  | none => summary

section Lines

variable (summary : DiffSummary) (file : FileDiff)

/-- A hyphen or a number is a text without tabs. -/
theorem tab_not_mem_column (count : Option ℕ) : '\t' ∉ column count := by
  cases count with
  | none => decide
  | some n => exact fun h => absurd (toNat_of_mem_decimal h) (by decide)

/-- A hyphen or a number is no blank text. -/
theorem exists_not_blank_of_column (count : Option ℕ) :
    ∃ c ∈ column count, isBlank c = false := by
  cases count with
  | none => exact ⟨'-', by decide, by decide⟩
  | some n =>
    obtain ⟨c, rest, hdecimal⟩ := List.exists_cons_of_ne_nil (decimal_ne_nil n)
    have hc : c ∈ decimal n := by simp [hdecimal]
    exact ⟨c, hc, isBlank_of_mem_decimal hc⟩

/-- File modes consist of ASCII digits. -/
theorem toNat_of_mem_modeDigits {mode : ℕ} {c : Char} (hc : c ∈ modeDigits mode) :
    48 ≤ c.toNat ∧ c.toNat < 58 :=
  toNat_of_mem_toDigits (by decide) (by decide) hc

/-- There is no tab in a printed path. -/
theorem tab_not_mem_printed : '\t' ∉ file.printed :=
  fun h => absurd (file.isPrinted.isPlain_of_mem _ h) (by decide)

/-- There is no space in a path that is printed alone. -/
theorem space_not_mem_printed (hold : file.outcome.oldPath? = none) : ' ' ∉ file.printed := by
  have hprinted := file.isPrinted
  rw [hold] at hprinted
  generalize file.printed = printed at hprinted
  cases hprinted with
  | alone => exact file.path.not_mem (by decide)

/-- A path that is printed with an old path starts with a text without spaces and the arrow. -/
theorem exists_arrow {old : PlainPath} (hold : file.outcome.oldPath? = some old) :
    ∃ front rest, file.printed = front ++ (RenamedPath.arrow ++ rest) ∧ ' ' ∉ front := by
  have hprinted := file.isPrinted
  rw [hold] at hprinted
  cases hprinted with
  | pair hpair =>
    obtain ⟨c, left, right, heq, hspace, -⟩ := hpair.exists_arrow
    exact ⟨c :: left, right, heq, hspace⟩

/-- A printed path is not empty. -/
theorem printed_ne_nil : file.printed ≠ [] := by
  obtain ⟨c, rest, hcons, -⟩ := file.isPrinted.exists_cons
  simp [hcons]

/-- The columns of a count line and its path. -/
theorem columns?_countColumns (counts : Option (ℕ × ℕ)) (printed : List Char) :
    DiffSummary.columns? (countColumns counts printed) =
      some (column (counts.map Prod.fst), column (counts.map Prod.snd), printed) := by
  rw [DiffSummary.columns?, countColumns, span_append_cons (tab_not_mem_column _)]
  simp only [span_append_cons (tab_not_mem_column _)]

/-- The columns of a count line are read if their digits can be. -/
theorem count?_column {printed : List Char} {path : String}
    (hpath : Git.unquote (String.ofList printed) = some path) (counts : Option (ℕ × ℕ)) :
    DiffSummary.count? (column (counts.map Prod.fst)) (column (counts.map Prod.snd)) printed =
      if areReadable counts then .ok (countEntry counts path) else .error .badNumber := by
  have hnumber (n : ℕ) : decimal n ≠ ['-'] := by
    intro h
    have hhyphen : '-' ∈ decimal n := by simp [h]
    exact absurd (toNat_of_mem_decimal hhyphen) (by decide)
  rw [DiffSummary.count?, hpath, areReadable, countEntry]
  cases counts with
  | none => rfl
  | some counts =>
    obtain ⟨added, deleted⟩ := counts
    simp only [Option.map_some, column, hnumber, decide_false, Bool.or_false, Bool.false_eq_true,
      if_false, integer?_decimal, Option.all_some, Bool.and_eq_true, decide_eq_true_eq]
    by_cases hadded : (decimal added).length ≤ maxIntegerDigits
    · by_cases hdeleted : (decimal deleted).length ≤ maxIntegerDigits
      · simp only [hadded, hdeleted, and_self, if_true]
        rfl
      · simp only [hadded, hdeleted, and_false, if_true, if_false]
    · simp only [hadded, false_and, if_false]

/-- The mode before a path is left out. -/
theorem withoutMode_behindMode {printed : List Char} (hne : printed ≠ []) (mode : ℕ) :
    DiffSummary.withoutMode (behindMode mode printed) = printed := by
  have hdigits : ∀ c ∈ modeDigits mode, isDecimal c = true := fun c hc =>
    isDecimal_of_ascii (toNat_of_mem_modeDigits hc).1 (toNat_of_mem_modeDigits hc).2
  have hstops : Stops isDecimal (" ".toList ++ printed) := stops_cons.mpr (by decide)
  have hrun : Scanner.run1 isDecimal (modeDigits mode ++ (" ".toList ++ printed)) =
      some (modeDigits mode, " ".toList ++ printed) :=
    Scanner.run1_append Nat.toDigits_ne_nil hdigits hstops
  have hmode : DiffSummary.mode (behindMode mode printed) = some ((), printed) := by
    simp only [DiffSummary.mode, behindMode, Scanner.bind_apply, Scanner.exactly_append,
      Option.bind_some, hrun]
  obtain ⟨c, rest, rfl⟩ := List.exists_cons_of_ne_nil hne
  rw [DiffSummary.withoutMode, hmode]

/-- Two paths with an arrow between them have no mode before them, as the arrow is no number. -/
theorem withoutMode_arrow {front : List Char} (hfront : ' ' ∉ front) (rest : List Char) :
    DiffSummary.withoutMode (front ++ (RenamedPath.arrow ++ rest)) =
      front ++ (RenamedPath.arrow ++ rest) := by
  have hmode : DiffSummary.mode (front ++ (RenamedPath.arrow ++ rest)) = none := by
    by_cases hlead : "mode ".toList <+: front ++ (RenamedPath.arrow ++ rest)
    · -- the space of the arrow is the first one, so that the word is all that stands before it
      obtain ⟨behind, hbehind⟩ := hlead
      have hcut : cutAt? [' '] (front ++ (RenamedPath.arrow ++ rest)) =
          some (front, "=> ".toList ++ rest) := cutAt?_append hfront [] _
      have hspace : ' ' ∉ "mode".toList := by decide
      have hword : cutAt? [' '] ("mode ".toList ++ behind) = some ("mode".toList, behind) :=
        cutAt?_append hspace [] behind
      rw [hbehind, hcut, Option.some.injEq, Prod.mk.injEq] at hword
      have hnumber : Scanner.run1 isDecimal ("=> ".toList ++ rest) = none :=
        Scanner.run1_eq_none (stops_cons.mpr (by decide))
      rw [← hbehind, ← hword.2]
      simp only [DiffSummary.mode, Scanner.bind_apply, Scanner.exactly_append, Option.bind_some,
        hnumber, Option.bind_none]
    · simp only [DiffSummary.mode, Scanner.bind_apply, Scanner.exactly_eq_none hlead,
        Option.bind_none]
  rw [DiffSummary.withoutMode, hmode]

/-- A text with digits and a percent sign in parentheses behind it, as a similarity has. -/
def HasSimilarity (text : List Char) : Prop :=
  ∃ front digits, front ≠ [] ∧ digits ≠ [] ∧ (∀ c ∈ digits, isDecimal c = true) ∧
    text = front ++ ' ' :: '(' :: (digits ++ ['%', ')'])

/-- Digits and a percent sign in parentheses are left out. -/
theorem withoutSimilarity_append {front digits : List Char} (hfront : front ≠ [])
    (hne : digits ≠ []) (hdigits : ∀ c ∈ digits, isDecimal c = true) :
    DiffSummary.withoutSimilarity (front ++ ' ' :: '(' :: (digits ++ ['%', ')'])) = front := by
  have hback : (front ++ ' ' :: '(' :: (digits ++ ['%', ')'])).reverse =
      ')' :: '%' :: (digits.reverse ++ '(' :: ' ' :: front.reverse) := by
    simp
  have hreverse : ∀ c ∈ digits.reverse, isDecimal c = true :=
    fun c hc => hdigits c (List.mem_reverse.mp hc)
  have hstops : Stops isDecimal ('(' :: ' ' :: front.reverse) := stops_cons.mpr (by decide)
  obtain ⟨d, more, hmore⟩ := List.exists_cons_of_ne_nil (List.reverse_ne_nil_iff.mpr hne)
  obtain ⟨c, before, hbefore⟩ := List.exists_cons_of_ne_nil (List.reverse_ne_nil_iff.mpr hfront)
  rw [DiffSummary.withoutSimilarity, hback]
  simp only [takeWhile_append_of_stops hreverse hstops, dropWhile_append_of_stops hreverse hstops]
  rw [hmore, hbefore]
  simp only
  rw [← hbefore, List.reverse_reverse]

/-- A text is kept exactly if no similarity stands behind it. -/
theorem withoutSimilarity_eq_self_iff {text : List Char} :
    DiffSummary.withoutSimilarity text = text ↔ ¬ HasSimilarity text := by
  constructor
  · rintro hsame ⟨front, digits, hfront, hne, hdigits, rfl⟩
    rw [withoutSimilarity_append hfront hne hdigits] at hsame
    have hlength := congrArg List.length hsame
    simp at hlength
  · intro hnone
    rw [DiffSummary.withoutSimilarity]
    split
    · next back heq =>
      split
      · next d more c before htake hdrop =>
        have hback := List.takeWhile_append_dropWhile (p := isDecimal) (l := back)
        refine absurd ⟨(c :: before).reverse, (d :: more).reverse, by simp, by simp, ?_, ?_⟩ hnone
        · intro e he
          rw [List.mem_reverse, ← htake] at he
          exact List.all_eq_true.mp List.all_takeWhile e he
        · rw [← List.reverse_reverse text, heq, ← hback, htake, hdrop]
          simp
      · rfl
    · rfl

/-- A text begins with what stands before a similarity. -/
theorem withoutSimilarity_prefix (text : List Char) :
    DiffSummary.withoutSimilarity text <+: text := by
  by_cases hsimilarity : HasSimilarity text
  · obtain ⟨front, digits, hfront, hne, hdigits, rfl⟩ := hsimilarity
    rw [withoutSimilarity_append hfront hne hdigits]
    exact List.prefix_append _ _
  · rw [withoutSimilarity_eq_self_iff.mpr hsimilarity]

/-- A text without spaces has no similarity behind it. -/
theorem withoutSimilarity_eq_self {text : List Char} (htext : ' ' ∉ text) :
    DiffSummary.withoutSimilarity text = text := by
  refine withoutSimilarity_eq_self_iff.mpr ?_
  rintro ⟨front, digits, -, -, -, rfl⟩
  simp at htext

/-- The similarity behind a path is left out. -/
theorem withoutSimilarity_beforeSimilarity {printed : List Char} (hne : printed ≠ [])
    (similarity : ℕ) :
    DiffSummary.withoutSimilarity (beforeSimilarity similarity printed) = printed :=
  withoutSimilarity_append hne (decimal_ne_nil similarity) fun _ => isDecimal_of_mem_decimal

/-- A count line adds its entry if its digits can be read. -/
theorem addLine_countColumns {printed : List Char} {path : String}
    (hpath : Git.unquote (String.ofList printed) = some path) (counts : Option (ℕ × ℕ)) :
    summary.addLine (countColumns counts printed) =
      if areReadable counts then
        .ok { summary with files := summary.files ++ [countEntry counts path] }
      else .error .badNumber := by
  have hblank : (countColumns counts printed).all isBlank = false := by
    obtain ⟨c, hc, hblank⟩ := exists_not_blank_of_column (counts.map Prod.fst)
    exact List.all_eq_false.mpr ⟨c, List.mem_append_left _ hc, by simp [hblank]⟩
  rw [DiffSummary.addLine, hblank, columns?_countColumns]
  simp only [Bool.false_eq_true, if_false, count?_column hpath]
  split <;> rfl

/-- The count line of a file adds the file's entry. -/
theorem addLine_countLine : summary.addLine file.countLine =
    if file.isReadable then .ok { summary with files := summary.files ++ [file.entry] }
    else .error .badNumber :=
  addLine_countColumns summary file.isPrinted.unquote file.counts

/-- A line without tabs is no count line. -/
theorem addLine_of_tab_not_mem {line : List Char} (hblank : line.all isBlank = false)
    (htab : '\t' ∉ line) : summary.addLine line =
      match DiffSummary.actionLine? line with
      | none => .ok summary
      | some (found, printed) =>
        match Git.unquote printed with
        | some path => .ok (summary.record found path)
        | none => .error .badNumber := by
  have hread := bne_of_not_mem htab
  have hspan : line.span (· != '\t') = (line, []) := by
    have htake := takeWhile_append_of_stops hread stops_nil
    have hdrop := dropWhile_append_of_stops hread stops_nil
    rw [List.append_nil] at htake hdrop
    rw [List.span_eq_takeWhile_dropWhile, htake, hdrop]
  have hcolumns : DiffSummary.columns? line = none := by
    rw [DiffSummary.columns?, hspan]
  rw [DiffSummary.addLine, hblank, hcolumns]
  rfl

/-- A summary line with an action records the path that is behind it. -/
theorem addLine_summaryLine {word path : String} {found : SummaryAction} {text printed : List Char}
    (hword : (word, found) ∈ DiffSummary.actions) (htab : '\t' ∉ text) (htext : text ≠ [])
    (hprinted : DiffSummary.withoutSimilarity (DiffSummary.withoutMode text) = printed)
    (hpath : Git.unquote (String.ofList printed) = some path) :
    summary.addLine (summaryLine word text) = .ok (summary.record found path) := by
  have hline : (summaryLine word text).all isBlank = false ∧ '\t' ∉ summaryLine word text ∧
      DiffSummary.action (summaryLine word text) = some (found, text) := by
    simp only [DiffSummary.actions, List.mem_cons, Prod.mk.injEq, List.not_mem_nil, or_false]
      at hword
    obtain ⟨rfl, rfl⟩ | ⟨rfl, rfl⟩ | ⟨rfl, rfl⟩ | ⟨rfl, rfl⟩ := hword <;>
      exact ⟨rfl, by simpa [summaryLine] using htab, rfl⟩
  obtain ⟨hblank, hnotab, haction⟩ := hline
  obtain ⟨c, rest, rfl⟩ := List.exists_cons_of_ne_nil htext
  rw [addLine_of_tab_not_mem summary hblank hnotab, DiffSummary.actionLine?, haction]
  simp only [hprinted, hpath]

/-- The line for a change of the mode says nothing. -/
theorem foldlM_modeLine {place : List Char} (hplace : '\t' ∉ place) (modes : Option (ℕ × ℕ)) :
    (modeLine modes place).foldlM DiffSummary.addLine summary = .ok summary := by
  cases modes with
  | none => rfl
  | some modes =>
    have htab (mode : ℕ) : '\t' ∉ modeDigits mode :=
      fun h => absurd (toNat_of_mem_modeDigits h) (by decide)
    rw [modeLine, Option.map_some, Option.toList_some, List.foldlM_cons,
      addLine_of_tab_not_mem summary rfl]
    · rfl
    · simp [summaryLine, RenamedPath.arrow, htab, hplace]

/-- A summary line with a mode records the path behind it. -/
theorem addLine_behindMode {word path : String} {found : SummaryAction} {printed : List Char}
    (hword : (word, found) ∈ DiffSummary.actions) (htab : '\t' ∉ printed) (hne : printed ≠ [])
    (hpath : Git.unquote (String.ofList (DiffSummary.withoutSimilarity printed)) = some path)
    (mode : ℕ) :
    summary.addLine (summaryLine word (behindMode mode printed)) =
      .ok (summary.record found path) := by
  have hdigits : '\t' ∉ modeDigits mode :=
    fun h => absurd (toNat_of_mem_modeDigits h) (by decide)
  have hbehind : '\t' ∉ behindMode mode printed := by simp [behindMode, hdigits, htab]
  refine addLine_summaryLine summary hword hbehind (by simp [behindMode]) ?_ hpath
  rw [withoutMode_behindMode hne]

/-- A path that is printed alone has no similarity behind it. -/
theorem unquote_withoutSimilarity (hold : file.outcome.oldPath? = none) :
    Git.unquote (String.ofList (DiffSummary.withoutSimilarity file.printed)) =
      some file.printedText := by
  rw [withoutSimilarity_eq_self (file.space_not_mem_printed hold)]
  exact file.isPrinted.unquote

/-- A summary line with a similarity records the paths before it. -/
theorem addLine_beforeSimilarity {word : String} {found : SummaryAction} {old : PlainPath}
    (hword : (word, found) ∈ DiffSummary.actions) (hold : file.outcome.oldPath? = some old)
    (similarity : ℕ) :
    summary.addLine (summaryLine word (beforeSimilarity similarity file.printed)) =
      .ok (summary.record found file.printedText) := by
  have hdigits : '\t' ∉ decimal similarity := tab_not_mem_column (some similarity)
  have htab : '\t' ∉ beforeSimilarity similarity file.printed := by
    simp [beforeSimilarity, hdigits, file.tab_not_mem_printed]
  have hmode : DiffSummary.withoutMode (beforeSimilarity similarity file.printed) =
      beforeSimilarity similarity file.printed := by
    obtain ⟨front, rest, hprinted, hfront⟩ := file.exists_arrow hold
    rw [beforeSimilarity, hprinted, List.append_assoc, List.append_assoc,
      withoutMode_arrow hfront]
  refine addLine_summaryLine summary hword htab (by simp [beforeSimilarity]) ?_
    file.isPrinted.unquote
  rw [hmode, withoutSimilarity_beforeSimilarity file.printed_ne_nil]

/-- The summary lines of a file record its action. -/
theorem foldlM_summaryLines :
    file.summaryLines.foldlM DiffSummary.addLine summary = .ok (file.recordIn summary) := by
  have htab := file.tab_not_mem_printed
  rw [summaryLines, recordIn]
  cases houtcome : file.outcome with
  | added mode =>
    have hword : ("create", SummaryAction.create) ∈ DiffSummary.actions := by decide
    have hpath := file.unquote_withoutSimilarity (by rw [houtcome]; rfl)
    have hline := addLine_behindMode summary hword htab file.printed_ne_nil hpath mode
    rw [List.foldlM_cons, hline]
    rfl
  | deleted mode =>
    have hword : ("delete", SummaryAction.delete) ∈ DiffSummary.actions := by decide
    have hpath := file.unquote_withoutSimilarity (by rw [houtcome]; rfl)
    have hline := addLine_behindMode summary hword htab file.printed_ne_nil hpath mode
    rw [List.foldlM_cons, hline]
    rfl
  | modified modes => exact foldlM_modeLine summary (by simp [htab]) modes
  | renamed old similarity modes =>
    have hword : ("rename", SummaryAction.rename) ∈ DiffSummary.actions := by decide
    have hline := addLine_beforeSimilarity summary file hword (by rw [houtcome]; rfl) similarity
    rw [List.foldlM_cons, hline]
    exact foldlM_modeLine _ List.not_mem_nil modes
  | copied old similarity modes =>
    have hword : ("copy", SummaryAction.copy) ∈ DiffSummary.actions := by decide
    have hline := addLine_beforeSimilarity summary file hword (by rw [houtcome]; rfl) similarity
    rw [List.foldlM_cons, hline]
    exact foldlM_modeLine _ List.not_mem_nil modes

end Lines

section Unbroken

/-- A line without line breaks inside of it. -/
def Unbroken (line : List Char) : Prop := ∀ c ∈ line, isLineBreak c = false

instance (line : List Char) : Decidable (Unbroken line) :=
  inferInstanceAs (Decidable (∀ c ∈ line, isLineBreak c = false))

/-- Two texts have no line break inside if each has none. -/
@[simp] theorem unbroken_append {left right : List Char} :
    Unbroken (left ++ right) ↔ Unbroken left ∧ Unbroken right := List.forall_mem_append

/-- A text has no line break inside if neither its first character is one nor the rest has one. -/
@[simp] theorem unbroken_cons {c : Char} {line : List Char} :
    Unbroken (c :: line) ↔ isLineBreak c = false ∧ Unbroken line := List.forall_mem_cons

/-- Characters that are not blank break no line. -/
theorem isLineBreak_eq_false {c : Char} (hc : isBlank c = false) : isLineBreak c = false := by
  cases hbreak : isLineBreak c with
  | false => rfl
  | true => rw [isBlank_of_isLineBreak hbreak] at hc; cases hc

/-- Digits break no line. -/
theorem unbroken_decimal (n : ℕ) : Unbroken (decimal n) :=
  fun _ hc => isLineBreak_eq_false (isBlank_of_mem_decimal hc)

/-- File modes break no line. -/
theorem unbroken_modeDigits (mode : ℕ) : Unbroken (modeDigits mode) := by
  intro c hc
  obtain ⟨hlow, hhigh⟩ := toNat_of_mem_modeDigits hc
  exact isLineBreak_eq_false (isBlank_of_ascii hlow hhigh)

variable (file : FileDiff)

/-- A printed path breaks no line. -/
theorem unbroken_printed : Unbroken file.printed := by
  intro c hc
  obtain hplain | rfl | rfl | rfl := file.isPrinted.isPlain_of_mem c hc
  · apply isLineBreak_eq_false
    simp only [isPlain, Bool.and_eq_true, Bool.not_eq_true'] at hplain
    exact hplain.1.1.1.1
  · decide
  · decide
  · decide

/-- A count line breaks a line only in its path. -/
theorem unbroken_countColumns {counts : Option (ℕ × ℕ)} {printed : List Char} :
    Unbroken (countColumns counts printed) ↔ Unbroken printed := by
  have hcolumn (count : Option ℕ) : Unbroken (column count) := by
    cases count with
    | none => decide
    | some n => exact unbroken_decimal n
  have htab : isLineBreak '\t' = false := by decide
  simp [countColumns, hcolumn, htab]

/-- A count line breaks no line. -/
theorem unbroken_countLine : Unbroken file.countLine :=
  unbroken_countColumns.mpr file.unbroken_printed

/-- A summary line breaks no line if its parts do not. -/
theorem unbroken_summaryLine {word : String} {text : List Char} (hword : Unbroken word.toList)
    (htext : Unbroken text) : Unbroken (summaryLine word text) := by
  have hspace : isLineBreak ' ' = false := by decide
  simp [summaryLine, hspace, hword, htext]

/-- The mode before a path breaks no line. -/
theorem unbroken_behindMode {printed : List Char} (hprinted : Unbroken printed) (mode : ℕ) :
    Unbroken (behindMode mode printed) := by
  have hwords : Unbroken "mode ".toList ∧ Unbroken " ".toList := by decide
  rw [behindMode, unbroken_append, unbroken_append, unbroken_append]
  exact ⟨hwords.1, unbroken_modeDigits mode, hwords.2, hprinted⟩

/-- The line for a change of the mode breaks no line. -/
theorem unbroken_of_mem_modeLine {modes : Option (ℕ × ℕ)} {place line : List Char}
    (hplace : Unbroken place) (hline : line ∈ modeLine modes place) : Unbroken line := by
  rw [modeLine, Option.mem_toList, Option.map_eq_some_iff] at hline
  obtain ⟨⟨old, new⟩, -, rfl⟩ := hline
  have hspace : isLineBreak ' ' = false := by decide
  have hwords : Unbroken "mode".toList ∧ Unbroken "change ".toList ∧
      Unbroken RenamedPath.arrow := by
    decide
  simp only [summaryLine, unbroken_append, unbroken_cons]
  exact ⟨hspace, hwords.1, hspace, hwords.2.1, unbroken_modeDigits old, hwords.2.2,
    unbroken_modeDigits new, hplace⟩

/-- No summary line breaks a line. -/
theorem unbroken_of_mem_summaryLines {line : List Char} (hline : line ∈ file.summaryLines) :
    Unbroken line := by
  have hprinted := file.unbroken_printed
  have hspace : isLineBreak ' ' = false := by decide
  have hsimilarity (similarity : ℕ) : Unbroken (beforeSimilarity similarity file.printed) := by
    have hmarks : isLineBreak '(' = false ∧ Unbroken ['%', ')'] := by decide
    rw [beforeSimilarity, unbroken_append, unbroken_cons, unbroken_cons, unbroken_append]
    exact ⟨hprinted, hspace, hmarks.1, unbroken_decimal similarity, hmarks.2⟩
  rw [summaryLines] at hline
  split at hline
  · rw [List.mem_singleton.mp hline]
    exact unbroken_summaryLine (by decide) (unbroken_behindMode hprinted _)
  · rw [List.mem_singleton.mp hline]
    exact unbroken_summaryLine (by decide) (unbroken_behindMode hprinted _)
  · exact unbroken_of_mem_modeLine (unbroken_cons.mpr ⟨hspace, hprinted⟩) hline
  · obtain rfl | hline := List.mem_cons.mp hline
    · exact unbroken_summaryLine (by decide) (hsimilarity _)
    · exact unbroken_of_mem_modeLine (List.forall_mem_nil _) hline
  · obtain rfl | hline := List.mem_cons.mp hline
    · exact unbroken_summaryLine (by decide) (hsimilarity _)
    · exact unbroken_of_mem_modeLine (List.forall_mem_nil _) hline

end Unbroken

end FileDiff

end ChangeImpact
