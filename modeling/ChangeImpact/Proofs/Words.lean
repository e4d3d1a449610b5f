import ChangeImpact.Text.Blank
import ChangeImpact.Text.Word
import Mathlib.Tactic.SplitIfs

/-!
# Words and blanks

A blank separates the words to its left from those to its right, so that a collapsed text does not
depend on how many blanks stand at a place. Collapsing keeps the characters that are not blank, and
no character of a name is blank.
-/

namespace ChangeImpact.Text

variable {c : Char} {left right gap text : List Char}

/-- A text that does not start with a blank has a word. -/
theorem words_cons_ne_nil (hc : isBlank c = false) (rest : List Char) :
    words (c :: rest) ≠ [] := by
  rw [words.eq_def]
  simp only [hc, Bool.false_eq_true, if_false]
  split
  · simp
  · split_ifs
    · simp
    · split <;> simp

/-- A last character that is not blank is a word. -/
theorem words_singleton (hc : isBlank c = false) : words [c] = [[c]] := by
  rw [words.eq_def]
  simp only [hc, Bool.false_eq_true, if_false]

/-- A character in front of a blank ends a word. -/
theorem words_cons_cons_of_isBlank {d : Char} (hc : isBlank c = false) (hd : isBlank d = true)
    (rest : List Char) : words (c :: d :: rest) = [c] :: words (d :: rest) := by
  rw [words.eq_def]
  simp only [hc, hd, Bool.false_eq_true, if_false, if_true]

/-- A character that is not blank belongs to the word behind it. -/
theorem words_cons_of_not_isBlank {d : Char} (hc : isBlank c = false) (hd : isBlank d = false)
    (rest : List Char) : ∃ word more, words (d :: rest) = word :: more ∧
      words (c :: d :: rest) = (c :: word) :: more := by
  obtain ⟨word, more, hwords⟩ := List.exists_cons_of_ne_nil (words_cons_ne_nil hd rest)
  refine ⟨word, more, hwords, ?_⟩
  rw [words.eq_def]
  simp only [hc, hd, hwords, Bool.false_eq_true, if_false]

/-- A blank stands between words. -/
theorem words_append_cons (hc : isBlank c = true) (left right : List Char) :
    words (left ++ c :: right) = words left ++ words right := by
  induction left with
  | nil => exact words_cons_of_isBlank hc right
  | cons d left ih =>
    cases hd : isBlank d with
    | true =>
      rw [List.cons_append, words_cons_of_isBlank hd, words_cons_of_isBlank hd, ih]
    | false =>
      cases left with
      | nil =>
        rw [List.singleton_append, words_cons_cons_of_isBlank hd hc, words_cons_of_isBlank hc,
          words_singleton hd, List.singleton_append]
      | cons e left =>
        rw [List.cons_append] at ih
        rw [List.cons_append, List.cons_append]
        cases he : isBlank e with
        | true =>
          rw [words_cons_cons_of_isBlank hd he, words_cons_cons_of_isBlank hd he, ih,
            List.cons_append]
        | false =>
          obtain ⟨word, more, hleft, hwords⟩ := words_cons_of_not_isBlank hd he left
          obtain ⟨word', more', hwhole, hwords'⟩ :=
            words_cons_of_not_isBlank hd he (left ++ c :: right)
          rw [hwhole, hleft, List.cons_append, List.cons.injEq] at ih
          rw [hwords, hwords', ih.1, ih.2, List.cons_append]

/-- Blanks have no words. -/
theorem words_append_of_blank (hgap : ∀ c ∈ gap, isBlank c = true) (right : List Char) :
    words (gap ++ right) = words right := by
  induction gap with
  | nil => rfl
  | cons c gap ih =>
    rw [List.forall_mem_cons] at hgap
    rw [List.cons_append, words_cons_of_isBlank hgap.1, ih hgap.2]

/-- Blanks stand between words. -/
theorem words_append_gap (hne : gap ≠ []) (hgap : ∀ c ∈ gap, isBlank c = true)
    (left right : List Char) : words (left ++ (gap ++ right)) = words left ++ words right := by
  obtain ⟨c, gap, rfl⟩ := List.exists_cons_of_ne_nil hne
  rw [List.forall_mem_cons] at hgap
  rw [List.cons_append, words_append_cons hgap.1, words_append_of_blank hgap.2]

/-- Blanks at both ends are lost when a text is collapsed. -/
theorem collapse_append_blanks {lead trail : List Char} (hlead : ∀ c ∈ lead, isBlank c = true)
    (htrail : ∀ c ∈ trail, isBlank c = true) (text : List Char) :
    collapse (lead ++ (text ++ trail)) = collapse text := by
  rw [collapse, collapse, words_append_of_blank hlead]
  cases trail with
  | nil => rw [List.append_nil]
  | cons c trail =>
    rw [List.forall_mem_cons] at htrail
    have hnone := words_append_of_blank htrail.2 []
    rw [List.append_nil] at hnone
    rw [words_append_cons htrail.1, hnone, words_nil, List.append_nil]

/-- The words of a text hold its characters that are not blank. -/
theorem flatten_words (text : List Char) : (words text).flatten = text.filter (!isBlank ·) := by
  induction text with
  | nil => rfl
  | cons c text ih =>
    cases hc : isBlank c with
    | true => rw [words_cons_of_isBlank hc, ih, List.filter_cons_of_neg (by simp [hc])]
    | false =>
      rw [List.filter_cons_of_pos (by simp [hc]), ← ih]
      cases text with
      | nil => rw [words_singleton hc]; rfl
      | cons d text =>
        cases hd : isBlank d with
        | true => rw [words_cons_cons_of_isBlank hc hd]; rfl
        | false =>
          obtain ⟨word, more, hrest, hwords⟩ := words_cons_of_not_isBlank hc hd text
          rw [hrest, hwords, List.flatten_cons, List.flatten_cons, List.cons_append]

/-- Words joined by spaces hold no further characters that are not blank. -/
theorem filter_intercalate (parts : List (List Char)) :
    ([' '].intercalate parts).filter (!isBlank ·) = parts.flatten.filter (!isBlank ·) := by
  have hspace : [' '].filter (!isBlank ·) = [] := by decide
  induction parts with
  | nil => rfl
  | cons part parts ih =>
    cases parts with
    | nil => simp [List.intercalate]
    | cons next parts =>
      rw [List.intercalate_cons_cons, List.filter_append, List.filter_append, hspace, ih,
        List.append_nil, ← List.filter_append, ← List.flatten_cons]

/-- Collapsing keeps the characters that are not blank. -/
theorem filter_collapse (text : List Char) :
    (collapse text).filter (!isBlank ·) = text.filter (!isBlank ·) := by
  rw [collapse, filter_intercalate, flatten_words, List.filter_filter]
  simp

/-- A text that is one word. -/
theorem words_eq_singleton (hne : text ≠ []) (htext : ∀ c ∈ text, isBlank c = false) :
    words text = [text] := by
  induction text with
  | nil => exact absurd rfl hne
  | cons c text ih =>
    rw [List.forall_mem_cons] at htext
    cases text with
    | nil => exact words_singleton htext.1
    | cons d text =>
      have hd := htext.2 d List.mem_cons_self
      have hrest := ih (List.cons_ne_nil d text) htext.2
      obtain ⟨word, more, hsame, hwords⟩ := words_cons_of_not_isBlank htext.1 hd text
      rw [hsame, List.cons.injEq] at hrest
      rw [hwords, hrest.1, hrest.2]

/-- Words are not empty and hold no blanks. -/
theorem isBlank_of_mem_words {word : List Char} (hword : word ∈ words text) :
    word ≠ [] ∧ ∀ c ∈ word, isBlank c = false := by
  induction text generalizing word with
  | nil => cases hword
  | cons c text ih =>
    cases hc : isBlank c with
    | true =>
      rw [words_cons_of_isBlank hc] at hword
      exact ih hword
    | false =>
      have hsingle : [c] ≠ [] ∧ ∀ d ∈ [c], isBlank d = false := by simp [hc]
      cases text with
      | nil =>
        rw [words_singleton hc, List.mem_singleton] at hword
        rw [hword]
        exact hsingle
      | cons d text =>
        cases hd : isBlank d with
        | true =>
          rw [words_cons_cons_of_isBlank hc hd] at hword
          obtain rfl | hword := List.mem_cons.mp hword
          · exact hsingle
          · exact ih hword
        | false =>
          obtain ⟨first, more, hrest, hwords⟩ := words_cons_of_not_isBlank hc hd text
          rw [hrest] at ih
          rw [hwords] at hword
          obtain rfl | hword := List.mem_cons.mp hword
          · exact ⟨List.cons_ne_nil c first, List.forall_mem_cons.mpr
              ⟨hc, (ih List.mem_cons_self).2⟩⟩
          · exact ih (List.mem_cons_of_mem first hword)

/-- Words that are joined by spaces are read back. -/
theorem words_intercalate {parts : List (List Char)}
    (hparts : ∀ part ∈ parts, part ≠ [] ∧ ∀ c ∈ part, isBlank c = false) :
    words ([' '].intercalate parts) = parts := by
  induction parts with
  | nil => rfl
  | cons part parts ih =>
    rw [List.forall_mem_cons] at hparts
    have hpart := words_eq_singleton hparts.1.1 hparts.1.2
    cases parts with
    | nil => rw [List.intercalate_singleton, hpart]
    | cons next parts =>
      rw [List.intercalate_cons_cons, List.append_assoc, List.singleton_append,
        words_append_cons (by decide), hpart, ih hparts.2, List.singleton_append]

/-- A collapsed text stays as it is. -/
@[simp] theorem collapse_collapse (text : List Char) :
    collapse (collapse text) = collapse text := by
  have hwords : words (collapse text) = words text :=
    words_intercalate fun _ hword => isBlank_of_mem_words hword
  rw [collapse, hwords, collapse]

/-- How many blanks stand at a place does not matter to the collapsed text. -/
theorem collapse_append_gap {other : List Char} (hne : gap ≠ [])
    (hgap : ∀ c ∈ gap, isBlank c = true) (hother : other ≠ [])
    (hblank : ∀ c ∈ other, isBlank c = true) (left right : List Char) :
    collapse (left ++ (gap ++ right)) = collapse (left ++ (other ++ right)) := by
  rw [collapse, collapse, words_append_gap hne hgap, words_append_gap hother hblank]

/-- What follows a text is lost when it is collapsed exactly if it is blank. -/
theorem collapse_append_eq_iff {rest : List Char} :
    collapse (text ++ rest) = collapse text ↔ ∀ c ∈ rest, isBlank c = true := by
  constructor
  · intro hsame
    have hkept := congrArg (List.filter (!isBlank ·)) hsame
    rw [filter_collapse, filter_collapse, List.filter_append, List.append_right_eq_self,
      List.filter_eq_nil_iff] at hkept
    simpa using hkept
  · intro hrest
    exact collapse_append_blanks (List.forall_mem_nil _) hrest text

/-- Code points of all blanks. -/
def blankCodes : List Nat :=
  List.range' 9 5 ++ List.range' 28 5 ++ [0x85, 0xA0, 0x1680] ++ List.range' 0x2000 11 ++
    [0x2028, 0x2029, 0x202F, 0x205F, 0x3000]

/-- No character of a name is blank. -/
theorem isBlank_of_isWord (hc : isWord c = true) : isBlank c = false := by
  have htable : ∀ n ∈ blankCodes, inRanges alphanumericRanges n = false ∧ n ≠ 95 := by
    decide +kernel
  rw [← Bool.not_eq_true]
  intro hblank
  have hcode : c.toNat ∈ blankCodes := by
    simp only [isBlank, Bool.or_eq_true, Bool.and_eq_true, decide_eq_true_eq, beq_iff_eq]
      at hblank
    simp only [blankCodes, List.mem_append, List.mem_range'_1, List.mem_cons, List.not_mem_nil]
    omega
  obtain ⟨halphanumeric, hunderscore⟩ := htable _ hcode
  rw [isWord, isAlphanumeric, halphanumeric, Bool.false_or, beq_iff_eq] at hc
  exact hunderscore (by rw [hc]; rfl)

/-- No blank is a character of a name. -/
theorem isWord_of_isBlank (hc : isBlank c = true) : isWord c = false := by
  rw [← Bool.not_eq_true]
  intro hword
  rw [isBlank_of_isWord hword] at hc
  cases hc

end ChangeImpact.Text
