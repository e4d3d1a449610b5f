import ChangeImpact.Export.Extract
import ChangeImpact.Proofs.Marks

/-!
# The order in which comments open

Block comments are removed before line comments, so a block comment may open inside a line comment.
Where each line comment keeps its slashes and closes the block comments that open in it, the result
is that of a single scan that deletes comments in the order in which they open. Every other line
comment spoils some text.
-/

namespace ChangeImpact

namespace Text

section Erase

variable {scan : Scanner Unit}

/-- What is skipped is left out. -/
theorem eraseFrom_length (read after : List Char) :
    eraseFrom scan read.length (read ++ after) = eraseFrom scan 0 after := by
  induction read with
  | nil => rfl
  | cons c read ih => rw [List.length_cons, List.cons_append, eraseFrom, ih]

/-- What the scanner reads is left out. -/
theorem erase_append_of_eq_some {read after : List Char} (hne : read ≠ [])
    (hscan : scan (read ++ after) = some ((), after)) :
    erase scan (read ++ after) = erase scan after := by
  cases read with
  | nil => exact absurd rfl hne
  | cons c read =>
    have hskip : (read ++ after).length - after.length = read.length := by simp
    rw [List.cons_append] at hscan
    rw [erase, List.cons_append, eraseFrom, hscan]
    simp only [hskip, eraseFrom_length, erase]

/-- A character at which the scanner refuses the text is kept. -/
theorem erase_cons_of_eq_none {c : Char} {rest : List Char} (hscan : scan (c :: rest) = none) :
    erase scan (c :: rest) = c :: erase scan rest := by
  rw [erase, eraseFrom, hscan]
  rfl

/-- What is left of a text was in the text. -/
theorem erase_sublist (text : List Char) : (erase scan text).Sublist text := by
  suffices h : ∀ skip, (eraseFrom scan skip text).Sublist text from h 0
  induction text with
  | nil => simp
  | cons c rest ih =>
    intro skip
    cases skip with
    | succ skip => exact (ih skip).cons c
    | zero =>
      rw [eraseFrom]
      split
      · exact (ih _).cons c
      · exact (ih 0).cons_cons c

end Erase

/-- A text that can be cut is cut at the same place if more follows it. -/
theorem cutAt?_append_right {needle text left right : List Char}
    (hcut : cutAt? needle text = some (left, right)) (tail : List Char) :
    cutAt? needle (text ++ tail) = some (left, right ++ tail) := by
  induction text generalizing left with
  | nil =>
    rw [cutAt?] at hcut
    split_ifs at hcut with hneedle
    cases hcut
    rw [List.isEmpty_iff] at hneedle
    subst hneedle
    cases tail <;> rfl
  | cons c rest ih =>
    rw [cutAt?] at hcut
    rw [List.cons_append, cutAt?]
    split at hcut
    case h_1 after hafter =>
      cases hcut
      have hlonger : needle.isPrefixOf? (c :: (rest ++ tail)) = some (right ++ tail) := by
        rw [List.isPrefixOf?_eq_some_iff_append_eq] at hafter ⊢
        rw [← List.append_assoc, hafter, List.cons_append]
      rw [hlonger]
    case h_2 hnone =>
      obtain ⟨⟨front, back⟩, hrest, hparts⟩ := Option.map_eq_some_iff.mp hcut
      cases hparts
      -- the mark stands farther to the right, so it is too short to reach into the tail from here
      have hlonger : needle.isPrefixOf? (c :: (rest ++ tail)) = none := by
        rw [Option.eq_none_iff_forall_not_mem]
        intro after hafter
        have hprefix : needle <+: (c :: rest) ++ tail :=
          ⟨after, List.isPrefixOf?_eq_some_iff_append_eq.mp hafter⟩
        have hlength := congrArg List.length (append_of_cutAt? hrest)
        simp only [List.length_append] at hlength
        obtain ⟨behind, hbehind⟩ := List.prefix_of_prefix_length_le hprefix
          (List.prefix_append (c :: rest) tail) (by rw [List.length_cons]; omega)
        rw [List.isPrefixOf?_eq_some_iff_append_eq.mpr hbehind] at hnone
        cases hnone
      rw [hlonger, ih hrest]
      rfl

end Text

namespace Export

open Text

/-- Reads a line comment and gives the text behind its slashes. -/
def lineText : Scanner (List Char) := do
  Scanner.exactly "//"
  Scanner.run (· != '\n')

/-- Reads the comment that opens at the start of a text: a line comment, whose text is given, or a
block comment. -/
def comment : Scanner (Option (List Char)) := fun text =>
  match lineText text with
  | some (line, after) => some (some line, after)
  | none => (blockComment text).map fun ((), after) => (none, after)

/-- The text without its comments, deleted in the order in which they open. -/
def withoutOpened (text : List Char) : List Char := erase (do let _ ← comment) text

/-- Every block comment that opens in a part of a text closes in it. -/
def ClosesBlocks (part after : List Char) : Prop :=
  ∀ o ∈ occurrences blockComment (part ++ after), o.before.length < part.length →
    after.length ≤ o.after.length

/-- A line comment keeps its slashes when block comments are removed, and those that open in it
close in it. -/
def KeepsLine (line after : List Char) : Prop :=
  "//".toList <+: erase blockComment ("//".toList ++ line) ∧
    ClosesBlocks ("//".toList ++ line) after

instance (part after : List Char) : Decidable (ClosesBlocks part after) :=
  inferInstanceAs (Decidable (∀ o ∈ occurrences blockComment (part ++ after),
    o.before.length < part.length → after.length ≤ o.after.length))

instance (line after : List Char) : Decidable (KeepsLine line after) :=
  inferInstanceAs (Decidable (_ ∧ _))

section Block

variable {place after tail : List Char}

/-- A block comment is read up to its first closing mark. -/
theorem blockComment_eq_some : blockComment place = some ((), after) ↔
    ∃ inside rest, place = "/*".toList ++ rest ∧
      cutAt? "*/".toList rest = some (inside, after) := by
  simp only [blockComment, Scanner.bind_apply, Option.bind_eq_some_iff]
  constructor
  · rintro ⟨⟨⟨⟩, rest⟩, hopen, hclose⟩
    obtain ⟨⟨inside, behind⟩, hcut, hbehind⟩ := Option.map_eq_some_iff.mp hclose
    cases hbehind
    exact ⟨inside, rest, (Scanner.exactly_eq_some.mp hopen).symm, hcut⟩
  · rintro ⟨inside, rest, rfl, hcut⟩
    exact ⟨((), rest), Scanner.exactly_append _ _, Option.map_eq_some_iff.mpr ⟨_, hcut, rfl⟩⟩

/-- A block comment takes more of the text than nothing. -/
theorem exists_read_of_blockComment (place : List Char) (value : Unit) (after : List Char)
    (hread : blockComment place = some (value, after)) :
    ∃ read, read ≠ [] ∧ place = read ++ after := by
  obtain ⟨inside, rest, rfl, hcut⟩ := blockComment_eq_some.mp hread
  refine ⟨"/*".toList ++ (inside ++ "*/".toList), by simp, ?_⟩
  rw [← append_of_cutAt? hcut]
  simp

/-- A block comment that is closed stays as it is if more follows. -/
theorem blockComment_append (hread : blockComment place = some ((), after)) (tail : List Char) :
    blockComment (place ++ tail) = some ((), after ++ tail) := by
  obtain ⟨inside, rest, rfl, hcut⟩ := blockComment_eq_some.mp hread
  exact blockComment_eq_some.mpr
    ⟨inside, rest ++ tail, by rw [List.append_assoc], cutAt?_append_right hcut tail⟩

/-- A block comment that ends before the tail does not depend on it. -/
theorem exists_blockComment_of_append (hread : blockComment (place ++ tail) = some ((), after))
    (hlength : tail.length ≤ after.length) :
    ∃ behind, after = behind ++ tail ∧ blockComment place = some ((), behind) := by
  obtain ⟨inside, rest, hplace, hcut⟩ := blockComment_eq_some.mp hread
  have hrest := append_of_cutAt? hcut
  obtain ⟨behind, rfl⟩ : tail <:+ after := by
    refine List.suffix_of_suffix_length_le (List.suffix_append place tail) ?_ hlength
    exact ⟨"/*".toList ++ (inside ++ "*/".toList), by rw [hplace, ← hrest]; simp⟩
  have hwhole : place = "/*".toList ++ (inside ++ ("*/".toList ++ behind)) := by
    rw [← List.append_left_inj tail, hplace, ← hrest]
    simp
  -- the first closing mark of the place is the first one of the longer text
  obtain ⟨front, back, hfirst, -⟩ := exists_cutAt? "*/".toList inside behind
  have hlonger := cutAt?_append_right hfirst tail
  have hsame : inside ++ ("*/".toList ++ behind) ++ tail = rest := by
    rw [← hrest]
    simp
  rw [hsame, hcut, Option.some.injEq, Prod.mk.injEq, List.append_left_inj] at hlonger
  refine ⟨behind, rfl, blockComment_eq_some.mpr ⟨front, _, hwhole, ?_⟩⟩
  rw [hfirst, hlonger.2]

/-- Where block comments close in a part of the text, they are removed from the part and from what
follows it. -/
theorem erase_blockComment_append {part : List Char} (hcloses : ClosesBlocks part tail) :
    erase blockComment (part ++ tail) = erase blockComment part ++ erase blockComment tail := by
  suffices h : ∀ before, (∀ o ∈ occurrencesFrom blockComment before 0 (part ++ tail),
      o.before.length < before.length + part.length → tail.length ≤ o.after.length) →
        erase blockComment (part ++ tail) = erase blockComment part ++ erase blockComment tail by
    refine h [] fun o ho hbefore => hcloses o ho ?_
    simpa using hbefore
  clear hcloses
  induction part using search_induction exists_read_of_blockComment with
  | nil => exact fun _ _ => rfl
  | refused c rest hread ih =>
    intro before hcloses
    have hhere : blockComment (c :: (rest ++ tail)) = none := by
      rw [Option.eq_none_iff_forall_not_mem]
      rintro ⟨⟨⟩, after⟩ hafter
      -- what opens here would close in the part, so that it would be read in the part alone
      have hmem :
          ⟨before, (), after⟩ ∈ occurrencesFrom blockComment before 0 (c :: rest ++ tail) := by
        rw [List.cons_append, occurrencesFrom, hafter]
        exact List.mem_cons_self
      have hlength := hcloses _ hmem (by simp)
      rw [← List.cons_append] at hafter
      obtain ⟨behind, -, hpart⟩ := exists_blockComment_of_append hafter hlength
      rw [hread] at hpart
      cases hpart
    have hrest := ih (c :: before) fun o ho hbefore => by
      refine hcloses o ?_ (by simp only [List.length_cons] at hbefore ⊢; omega)
      rwa [List.cons_append, occurrencesFrom_cons_of_eq_none hhere]
    rw [List.cons_append, erase_cons_of_eq_none hhere, erase_cons_of_eq_none hread, hrest,
      List.cons_append]
  | found read value after hne hread ih =>
    intro before hcloses
    have hhere := blockComment_append hread tail
    rw [List.append_assoc] at hhere hcloses ⊢
    have hrest := ih (read.reverse ++ before) fun o ho hbefore => by
      refine hcloses o ?_ (by
        simp only [List.length_append, List.length_reverse] at hbefore ⊢
        omega)
      rw [occurrencesFrom_of_eq_some hne hhere]
      exact List.mem_cons_of_mem _ ho
    rw [erase_append_of_eq_some hne hhere, erase_append_of_eq_some hne hread, hrest]

end Block

section Line

variable {line after text : List Char}

/-- A line comment is read up to the end of its line. -/
theorem lineText_append (hline : '\n' ∉ line) (hafter : Stops (· != '\n') after) :
    lineText ("//".toList ++ (line ++ after)) = some (line, after) := by
  rw [lineText, Scanner.bind_apply, Scanner.exactly_append, Option.bind_some]
  exact Scanner.run_append (bne_of_not_mem hline) hafter

/-- What is read as a line comment stands behind two slashes, and its line ends there. -/
theorem lineText_eq_some (hread : lineText text = some (line, after)) :
    '\n' ∉ line ∧ Stops (· != '\n') after ∧ text = "//".toList ++ (line ++ after) := by
  rw [lineText, Scanner.bind_apply, Option.bind_eq_some_iff] at hread
  obtain ⟨⟨⟨⟩, rest⟩, hopen, hrun⟩ := hread
  obtain ⟨hbne, hstops, hrest⟩ := Scanner.run_eq_some hrun
  refine ⟨fun hmem => absurd (hbne _ hmem) (by decide), hstops, ?_⟩
  rw [← Scanner.exactly_eq_some.mp hopen, ← hrest]

/-- Removing line comments and reading their texts go by the same pattern. -/
theorem lineComment_eq_map (text : List Char) :
    lineComment text = (lineText text).map fun found => ((), found.2) := by
  rw [lineComment, lineText, Scanner.bind_apply, Scanner.bind_apply]
  cases Scanner.exactly "//" text with
  | none => rfl
  | some found => rfl

/-- Every comment takes more of the text than nothing. -/
theorem exists_read_of_comment (place : List Char) (value : Option (List Char)) (after : List Char)
    (hread : comment place = some (value, after)) : ∃ read, read ≠ [] ∧ place = read ++ after := by
  rw [comment] at hread
  cases hline : lineText place with
  | some found =>
    rw [hline] at hread
    cases hread
    obtain ⟨-, -, rfl⟩ := lineText_eq_some hline
    exact ⟨"//".toList ++ found.1, by simp, by simp⟩
  | none =>
    rw [hline] at hread
    obtain ⟨⟨⟨⟩, behind⟩, hblock, hsame⟩ := Option.map_eq_some_iff.mp hread
    cases hsame
    exact exists_read_of_blockComment place () _ hblock

/-- A text that does not start with a slash opens no block comment. -/
theorem blockComment_eq_none (htext : text.head? ≠ some '/') : blockComment text = none := by
  rw [Option.eq_none_iff_forall_not_mem]
  rintro ⟨⟨⟩, after⟩ hread
  obtain ⟨inside, rest, rfl, -⟩ := blockComment_eq_some.mp hread
  exact htext rfl

/-- The end of a line is kept when block comments are removed. -/
theorem stops_erase_blockComment (hafter : Stops (· != '\n') after) :
    Stops (· != '\n') (erase blockComment after) := by
  cases after with
  | nil => exact stops_nil
  | cons c rest =>
    obtain rfl : c = '\n' := by simpa using hafter
    rw [erase_cons_of_eq_none (blockComment_eq_none (by simp))]
    exact stops_cons.mpr (by decide)

/-- A line comment that keeps its slashes is removed when the block comments in it are. -/
theorem withoutComments_of_keepsLine (hline : '\n' ∉ line) (hafter : Stops (· != '\n') after)
    (hkeeps : KeepsLine line after) :
    withoutComments ("//".toList ++ (line ++ after)) = withoutComments after := by
  obtain ⟨⟨kept, hkept⟩, hcloses⟩ := hkeeps
  have hnewline : '\n' ∉ kept := by
    intro hmem
    have hleft : '\n' ∈ erase blockComment ("//".toList ++ line) := by
      rw [← hkept]
      exact List.mem_append_right _ hmem
    simpa [hline] using (erase_sublist _).subset hleft
  have hread : lineComment ("//".toList ++ kept ++ erase blockComment after) =
      some ((), erase blockComment after) := by
    rw [lineComment_eq_map, List.append_assoc,
      lineText_append hnewline (stops_erase_blockComment hafter)]
    rfl
  rw [withoutComments, ← List.append_assoc, erase_blockComment_append hcloses, ← hkept,
    erase_append_of_eq_some (by simp) hread, withoutComments]

/-- Where no comment opens, the first character is kept. -/
theorem withoutComments_cons {c : Char} {rest : List Char} (hread : comment (c :: rest) = none) :
    withoutComments (c :: rest) = c :: withoutComments rest := by
  obtain ⟨hline, hblock⟩ : lineText (c :: rest) = none ∧ blockComment (c :: rest) = none := by
    rw [comment] at hread
    cases hline : lineText (c :: rest) with
    | some found =>
      rw [hline] at hread
      cases hread
    | none =>
      rw [hline] at hread
      exact ⟨rfl, Option.map_eq_none_iff.mp hread⟩
  -- what is left of the rest goes on with the same character if that is no slash
  have hslashes : ¬ ['/', '/'] <+: c :: erase blockComment rest := by
    rw [List.cons_prefix_cons]
    rintro ⟨rfl, hnext⟩
    cases rest with
    | nil => exact absurd (List.prefix_nil.mp hnext) (List.cons_ne_nil _ _)
    | cons d more =>
      by_cases hd : d = '/'
      · subst hd
        cases hline
      · rw [erase_cons_of_eq_none (blockComment_eq_none (by simpa using hd)),
          List.cons_prefix_cons] at hnext
        exact hd hnext.1.symm
  have hexactly : Scanner.exactly "//" (c :: erase blockComment rest) = none :=
    Scanner.exactly_eq_none hslashes
  have hnone : lineComment (c :: erase blockComment rest) = none := by
    rw [lineComment, Scanner.bind_apply, hexactly]
    rfl
  rw [withoutComments, erase_cons_of_eq_none hblock, erase_cons_of_eq_none hnone, withoutComments]

/-- A closed block comment at the start of a text is removed. -/
theorem withoutComments_of_blockComment (hread : blockComment text = some ((), after)) :
    withoutComments text = withoutComments after := by
  obtain ⟨read, hne, rfl⟩ := exists_read_of_blockComment text () after hread
  rw [withoutComments, erase_append_of_eq_some hne hread, withoutComments]

/-- Where every line comment keeps its slashes and closes the block comments that open in it, the
comments are removed in the order in which they open. -/
theorem withoutComments_eq_withoutOpened
    (hkeeps : ∀ o ∈ occurrences comment text, ∀ line ∈ o.value, KeepsLine line o.after) :
    withoutComments text = withoutOpened text := by
  suffices h : ∀ before, (∀ o ∈ occurrencesFrom comment before 0 text, ∀ line ∈ o.value,
      KeepsLine line o.after) → withoutComments text = withoutOpened text from h [] hkeeps
  clear hkeeps
  induction text using search_induction exists_read_of_comment with
  | nil => exact fun _ _ => rfl
  | refused c rest hread ih =>
    intro before hkeeps
    have hnone : (do let _ ← comment : Scanner Unit) (c :: rest) = none := by
      rw [Scanner.bind_apply, hread]
      rfl
    rw [occurrencesFrom_cons_of_eq_none hread] at hkeeps
    rw [withoutComments_cons hread, withoutOpened, erase_cons_of_eq_none hnone, ih _ hkeeps,
      withoutOpened]
  | found read value after hne hread ih =>
    intro before hkeeps
    rw [occurrencesFrom_of_eq_some hne hread, List.forall_mem_cons] at hkeeps
    have hsome : (do let _ ← comment : Scanner Unit) (read ++ after) = some ((), after) := by
      rw [Scanner.bind_apply, hread]
      rfl
    have hrest : withoutComments (read ++ after) = withoutComments after := by
      rw [comment] at hread
      cases hline : lineText (read ++ after) with
      | some found =>
        obtain ⟨line, behind⟩ := found
        rw [hline] at hread
        cases hread
        obtain ⟨hnewline, hstops, htext⟩ := lineText_eq_some hline
        rw [htext]
        exact withoutComments_of_keepsLine hnewline hstops (hkeeps.1 line rfl)
      | none =>
        rw [hline] at hread
        obtain ⟨⟨⟨⟩, behind⟩, hblock, hsame⟩ := Option.map_eq_some_iff.mp hread
        cases hsame
        exact withoutComments_of_blockComment hblock
    rw [hrest, withoutOpened, erase_append_of_eq_some hne hsome, ih _ hkeeps.2, withoutOpened]

/-- A line comment is the first to open where two slashes stand. -/
theorem withoutOpened_line (hline : '\n' ∉ line) (hafter : Stops (· != '\n') after) :
    withoutOpened ("//".toList ++ (line ++ after)) = withoutOpened after := by
  have hread : (do let _ ← comment : Scanner Unit) ("//".toList ++ line ++ after) =
      some ((), after) := by
    rw [Scanner.bind_apply, comment, List.append_assoc, lineText_append hline hafter]
    rfl
  rw [withoutOpened, ← List.append_assoc, erase_append_of_eq_some (by simp) hread, withoutOpened]

/-- A text with a line break that is commented out if a block comment is open before it. -/
def brokenMark : List Char := ['\n', '*', '/']

/-- Nothing is taken out of that text. -/
theorem withoutOpened_brokenMark : withoutOpened brokenMark = brokenMark := by decide

/-- A block comment that opens in a part of the text can be closed behind the line break. -/
theorem exists_blockComment_brokenMark {part : List Char} {found : Unit × List Char}
    (hne : part ≠ []) (hafter : Stops (· != '\n') after)
    (hread : blockComment (part ++ after) = some found) :
    ∃ behind, blockComment (part ++ brokenMark) = some ((), behind) := by
  obtain ⟨⟨⟩, behind⟩ := found
  obtain ⟨-, inside, htext, -⟩ := blockComment_eq_some.mp hread
  have hmark : part ++ after = '/' :: '*' :: inside := htext
  match part, hne with
  | [c], _ =>
    -- the opening mark does not reach over the end of the line
    have hstar : after = '*' :: inside := (List.cons.inj hmark).2
    rw [hstar] at hafter
    exact absurd (stops_cons.mp hafter) (by decide)
  | c :: d :: more, _ =>
    obtain ⟨rfl, hstar⟩ := List.cons.inj hmark
    obtain ⟨rfl, -⟩ := List.cons.inj hstar
    obtain ⟨front, back, hcut, -⟩ := exists_cutAt? "*/".toList (more ++ ['\n']) []
    exact ⟨back, blockComment_eq_some.mpr
      ⟨front, more ++ brokenMark, rfl, by simpa [brokenMark] using hcut⟩⟩

/-- A block comment that is closed only behind the line break takes the line break with it. -/
theorem newline_not_mem_of_closed_behind {part behind : List Char}
    (hopen : blockComment part = none)
    (hread : blockComment (part ++ brokenMark) = some ((), behind)) : '\n' ∉ behind := by
  have hshort : behind.length < brokenMark.length := by
    by_contra hlong
    obtain ⟨shorter, -, hclosed⟩ := exists_blockComment_of_append hread (Nat.le_of_not_lt hlong)
    rw [hopen] at hclosed
    cases hclosed
  obtain ⟨read, -, hsplit⟩ := exists_read_of_blockComment _ _ _ hread
  obtain ⟨skipped, hskipped⟩ : behind <:+ brokenMark :=
    List.suffix_of_suffix_length_le ⟨read, hsplit.symm⟩ (List.suffix_append part brokenMark)
      hshort.le
  cases skipped with
  | nil =>
    rw [← hskipped] at hshort
    exact absurd hshort (lt_irrefl _)
  | cons d skipped =>
    have hrest : skipped ++ behind = ['*', '/'] := (List.cons.inj hskipped).2
    intro hmem
    have hmark : '\n' ∈ skipped ++ behind := List.mem_append_right skipped hmem
    rw [hrest] at hmark
    exact absurd hmark (by decide)

/-- A block comment that opens with a part of the text and closes only behind the line break leaves
no line break. -/
theorem newline_not_mem_erase_of_closed_behind {part behind : List Char}
    (hopen : blockComment part = none)
    (hread : blockComment (part ++ brokenMark) = some ((), behind)) :
    '\n' ∉ erase blockComment (part ++ brokenMark) := by
  obtain ⟨read, hne, hsplit⟩ := exists_read_of_blockComment _ _ _ hread
  rw [hsplit, erase_append_of_eq_some hne (by rw [← hsplit, hread])]
  exact fun hmem => newline_not_mem_of_closed_behind hopen hread
    ((erase_sublist behind).subset hmem)

/-- Where no block comment is read up to the line break and a closing mark, none is read however the
text goes on behind the line. -/
theorem blockComment_append_eq_none {part : List Char} (hne : part ≠ [])
    (hafter : Stops (· != '\n') after) (hbroken : blockComment (part ++ brokenMark) = none) :
    blockComment (part ++ after) = none := by
  rw [Option.eq_none_iff_forall_not_mem]
  intro found hfound
  obtain ⟨behind, hclosed⟩ := exists_blockComment_brokenMark hne hafter hfound
  rw [hclosed] at hbroken
  cases hbroken

/-- A block comment that opens in a part of the text and does not close in it takes the line break
behind the part with it. -/
theorem newline_not_mem_erase {part : List Char} (hpart : '\n' ∉ part)
    (hafter : Stops (· != '\n') after) (hopen : ¬ ClosesBlocks part after) :
    '\n' ∉ erase blockComment (part ++ brokenMark) := by
  suffices h : ∀ before, (∃ o ∈ occurrencesFrom blockComment before 0 (part ++ after),
      o.before.length < before.length + part.length ∧ o.after.length < after.length) →
        '\n' ∉ erase blockComment (part ++ brokenMark) by
    simp only [ClosesBlocks, not_forall, not_le] at hopen
    obtain ⟨o, ho, hbefore, hlength⟩ := hopen
    exact h [] ⟨o, ho, by simpa using hbefore, hlength⟩
  clear hopen
  induction part using search_induction exists_read_of_blockComment with
  | nil =>
    rintro before ⟨o, ho, hbefore, -⟩
    have hlater := length_le_of_mem_occurrencesFrom ho
    simp only [List.length_nil] at hbefore
    omega
  | refused c rest hread ih =>
    rintro before ⟨o, ho, hbefore, hlength⟩
    rw [List.mem_cons, not_or] at hpart
    cases hbroken : blockComment (c :: rest ++ brokenMark) with
    | some found =>
      obtain ⟨⟨⟩, behind⟩ := found
      exact newline_not_mem_erase_of_closed_behind hread hbroken
    | none =>
      have hhere : blockComment (c :: (rest ++ after)) = none :=
        blockComment_append_eq_none (List.cons_ne_nil c rest) hafter hbroken
      rw [List.cons_append] at hbroken
      rw [List.cons_append, occurrencesFrom_cons_of_eq_none hhere] at ho
      rw [List.cons_append, erase_cons_of_eq_none hbroken, List.mem_cons, not_or]
      refine ⟨hpart.1, ih hpart.2 (c :: before) ⟨o, ho, ?_, hlength⟩⟩
      simp only [List.length_cons] at hbefore ⊢
      omega
  | found read value behind hne hread ih =>
    rintro before ⟨o, ho, hbefore, hlength⟩
    have hhere := blockComment_append hread after
    have hbroken := blockComment_append hread brokenMark
    rw [List.mem_append, not_or] at hpart
    rw [List.append_assoc] at ho hhere hbroken ⊢
    rw [occurrencesFrom_of_eq_some hne hhere] at ho
    rw [erase_append_of_eq_some hne hbroken]
    obtain rfl | ho := List.mem_cons.mp ho
    · simp only [List.length_append] at hlength
      omega
    · refine ih hpart.2 _ ⟨o, ho, ?_, hlength⟩
      simp only [List.length_append, List.length_reverse] at hbefore ⊢
      omega

/-- A line comment that loses its slashes or leaves a block comment open spoils some text: what is
left of the text is not what is left when comments are removed in the order in which they open. -/
theorem exists_withoutComments_ne (hline : '\n' ∉ line) (hafter : Stops (· != '\n') after)
    (hlost : ¬ KeepsLine line after) :
    ∃ tail, Stops (· != '\n') tail ∧
      withoutComments ("//".toList ++ (line ++ tail)) ≠
        withoutOpened ("//".toList ++ (line ++ tail)) := by
  by_cases hslashes : "//".toList <+: erase blockComment ("//".toList ++ line)
  · have hopen : ¬ ClosesBlocks ("//".toList ++ line) after := fun h => hlost ⟨hslashes, h⟩
    have hnewline := newline_not_mem_erase (by simpa using hline) hafter hopen
    have hbroken : Stops (· != '\n') brokenMark := stops_cons.mpr (by decide)
    refine ⟨brokenMark, hbroken, ?_⟩
    rw [withoutOpened_line hline hbroken, withoutOpened_brokenMark]
    intro hsame
    have hmem : '\n' ∈ withoutComments ("//".toList ++ (line ++ brokenMark)) := by
      rw [hsame]
      exact List.mem_cons_self
    rw [List.append_assoc] at hnewline
    exact hnewline ((erase_sublist _).subset hmem)
  · refine ⟨[], stops_nil, ?_⟩
    rw [withoutOpened_line hline stops_nil]
    -- the first slash is left, as neither a block comment nor a line comment begins there
    have hblock : blockComment ('/' :: '/' :: line) = none := by
      rw [Option.eq_none_iff_forall_not_mem]
      rintro ⟨⟨⟩, behind⟩ hread
      obtain ⟨inside, rest, htext, -⟩ := blockComment_eq_some.mp hread
      have hstar : '/' :: '/' :: line = '/' :: '*' :: rest := htext
      simp at hstar
    have hkept : erase blockComment ("//".toList ++ line) =
        '/' :: erase blockComment ('/' :: line) := erase_cons_of_eq_none hblock
    have hexactly := Scanner.exactly_eq_none hslashes
    have hnone : lineComment ('/' :: erase blockComment ('/' :: line)) = none := by
      rw [← hkept, lineComment, Scanner.bind_apply, hexactly]
      rfl
    rw [List.append_nil, withoutComments, hkept, erase_cons_of_eq_none hnone]
    exact List.cons_ne_nil _ _

/-- A line comment that is found in a text ends with its line. -/
theorem of_mem_occurrences_comment {o : Occurrence (Option (List Char))}
    (ho : o ∈ occurrences comment text) (hline : line ∈ o.value) :
    '\n' ∉ line ∧ Stops (· != '\n') o.after := by
  obtain ⟨place, -, hread⟩ := exists_place_of_mem_occurrencesFrom ho
  rw [comment, Option.mem_def.mp hline] at hread
  cases hfound : lineText place with
  | none =>
    rw [hfound] at hread
    obtain ⟨block, -, hsame⟩ := Option.map_eq_some_iff.mp hread
    cases hsame
  | some found =>
    rw [hfound] at hread
    obtain ⟨hsame, hafter⟩ := Prod.mk.inj (Option.some.inj hread)
    obtain ⟨hnewline, hstops, -⟩ := lineText_eq_some hfound
    rw [← Option.some.inj hsame, ← hafter]
    exact ⟨hnewline, hstops⟩

end Line

/-- The comments of a text are removed in the order in which they open if every line comment keeps
its slashes and closes the block comments that open in it; every line comment of the text that does
not spoils some text that begins with it. -/
theorem stripComments_eq_withoutOpened (text : String) :
    ((∀ o ∈ occurrences comment text.toList, ∀ line ∈ o.value, KeepsLine line o.after) →
      stripComments text = String.ofList (withoutOpened text.toList)) ∧
    ∀ o ∈ occurrences comment text.toList, ∀ line ∈ o.value, ¬ KeepsLine line o.after →
      ∃ tail, Stops (· != '\n') tail ∧
        stripComments (String.ofList ("//".toList ++ (line ++ tail))) ≠
          String.ofList (withoutOpened ("//".toList ++ (line ++ tail))) := by
  constructor
  · intro hkeeps
    rw [stripComments, withoutComments_eq_withoutOpened hkeeps]
  · intro o ho line hmem hlost
    obtain ⟨hline, hafter⟩ := of_mem_occurrences_comment ho hmem
    obtain ⟨tail, htail, hne⟩ := exists_withoutComments_ne hline hafter hlost
    refine ⟨tail, htail, fun hsame => hne ?_⟩
    rwa [stripComments, String.toList_ofList, String.ofList_inj] at hsame

/-- Slashes in a block comment, a closed block comment in a line comment and one that stays open do
no harm; one that opens in a line comment and may close behind it does. -/
theorem stripComments_eq_withoutOpened_mixed :
    stripComments "a /* // */ b // c /* d */\n/* e\n// */ f // /* g\n" = "a  b \n f \n" ∧
      ∃ tail, Stops (· != '\n') tail ∧
        stripComments (String.ofList ("//".toList ++ (" /* x".toList ++ tail))) ≠
          String.ofList (withoutOpened ("//".toList ++ (" /* x".toList ++ tail))) := by
  constructor
  · rw [(stripComments_eq_withoutOpened _).1 (by decide)]
    decide
  · have hfound : ⟨[], some " /* x".toList, "\n*/".toList⟩ ∈
        occurrences comment "// /* x\n*/".toList := by
      rw [String.toList_ofList, String.toList_ofList, String.toList_ofList]
      exact List.mem_cons_self
    exact (stripComments_eq_withoutOpened "// /* x\n*/").2 _ hfound _ rfl (by decide)

/-- A line comment loses its slashes, and what it comments out is exported. -/
theorem stripComments_lostSlashes :
    let text := "//* x */ export const a = 1;\n"
    stripComments text = "/ export const a = 1;\n" ∧
      String.ofList (withoutOpened text.toList) = "\n" ∧
        symbols text = [⟨"a", .const, none, false⟩] := by
  dsimp only [stripComments, symbols]
  rw [String.toList_ofList]
  decide +kernel

end Export

end ChangeImpact
