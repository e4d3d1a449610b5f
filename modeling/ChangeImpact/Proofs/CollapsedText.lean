import ChangeImpact.Proofs.Scanning
import ChangeImpact.Proofs.Words

/-!
# Collapsed texts

A collapsed text is made of words with one space between neighbours. Such texts can be put together,
with or without a space between them, and none has a blank at its ends.
-/

namespace ChangeImpact.Text

/-- A text that collapsing does not change. -/
def IsCollapsed (text : List Char) : Prop := collapse text = text

instance (text : List Char) : Decidable (IsCollapsed text) :=
  inferInstanceAs (Decidable (collapse text = text))

variable {c : Char} {left right text : List Char}

/-- A collapsed text is one of words with single spaces between them. -/
theorem isCollapsed_iff : IsCollapsed text ↔ ∃ parts : List (List Char),
    (∀ part ∈ parts, part ≠ [] ∧ ∀ c ∈ part, isBlank c = false) ∧
      [' '].intercalate parts = text := by
  constructor
  · intro htext
    exact ⟨words text, fun _ hword => isBlank_of_mem_words hword, htext⟩
  · rintro ⟨parts, hparts, rfl⟩
    rw [IsCollapsed, collapse, words_intercalate hparts]

/-- The empty text is collapsed. -/
@[simp] theorem isCollapsed_nil : IsCollapsed [] := rfl

/-- A text without blanks is collapsed. -/
theorem isCollapsed_of_not_isBlank (htext : ∀ c ∈ text, isBlank c = false) : IsCollapsed text := by
  by_cases hne : text = []
  · rw [hne]
    exact isCollapsed_nil
  · exact isCollapsed_iff.mpr ⟨[text], by simpa using ⟨hne, htext⟩, List.intercalate_singleton⟩

/-- Words are joined where no space is put between two texts of words. -/
theorem intercalate_append_intercalate (front : List (List Char)) (last first : List Char)
    (back : List (List Char)) :
    [' '].intercalate (front ++ [last]) ++ [' '].intercalate (first :: back) =
      [' '].intercalate (front ++ (last ++ first) :: back) := by
  induction front with
  | nil =>
    cases back with
    | nil => simp
    | cons next back => simp [List.intercalate_cons_cons]
  | cons part front ih =>
    have hne (parts : List (List Char)) (part : List Char) : front ++ part :: parts ≠ [] := by simp
    rw [List.cons_append, List.cons_append, List.intercalate_cons_of_ne_nil (hne _ _),
      List.intercalate_cons_of_ne_nil (hne _ _), List.append_assoc, ih]

/-- Texts of words are joined by a space. -/
theorem intercalate_append_space {front back : List (List Char)} (hfront : front ≠ [])
    (hback : back ≠ []) :
    [' '].intercalate front ++ ' ' :: [' '].intercalate back =
      [' '].intercalate (front ++ back) := by
  induction front with
  | nil => exact absurd rfl hfront
  | cons part front ih =>
    cases front with
    | nil => simp [List.intercalate_cons_of_ne_nil hback]
    | cons next front =>
      have hrest := ih (List.cons_ne_nil next front)
      rw [List.cons_append] at hrest
      rw [List.cons_append, List.cons_append, List.intercalate_cons_cons,
        List.intercalate_cons_cons, List.append_assoc, hrest]

/-- Collapsed texts stay collapsed where one follows the other. -/
theorem IsCollapsed.append (hleft : IsCollapsed left) (hright : IsCollapsed right) :
    IsCollapsed (left ++ right) := by
  obtain ⟨front, hfront, rfl⟩ := isCollapsed_iff.mp hleft
  obtain ⟨back, hback, rfl⟩ := isCollapsed_iff.mp hright
  induction front using List.reverseRecOn with
  | nil => simpa using hright
  | append_singleton front last =>
    cases back with
    | nil => simpa using hleft
    | cons first back =>
      rw [List.forall_mem_append, List.forall_mem_singleton] at hfront
      rw [List.forall_mem_cons] at hback
      refine isCollapsed_iff.mpr ⟨front ++ (last ++ first) :: back, ?_,
        (intercalate_append_intercalate front last first back).symm⟩
      rw [List.forall_mem_append, List.forall_mem_cons]
      refine ⟨hfront.1, ⟨by simp [hfront.2.1], ?_⟩, hback.2⟩
      exact List.forall_mem_append.mpr ⟨hfront.2.2, hback.1.2⟩

/-- A character that is not blank can stand in front of a collapsed text. -/
theorem IsCollapsed.cons (hc : isBlank c = false) (htext : IsCollapsed text) :
    IsCollapsed (c :: text) :=
  (isCollapsed_of_not_isBlank (List.forall_mem_singleton.mpr hc)).append htext

/-- Collapsed texts that are not empty stay collapsed with a space between them. -/
theorem IsCollapsed.append_space (hleft : IsCollapsed left) (hright : IsCollapsed right)
    (hleftNe : left ≠ []) (hrightNe : right ≠ []) : IsCollapsed (left ++ ' ' :: right) := by
  obtain ⟨front, hfront, rfl⟩ := isCollapsed_iff.mp hleft
  obtain ⟨back, hback, rfl⟩ := isCollapsed_iff.mp hright
  have hfrontNe : front ≠ [] := by
    rintro rfl
    exact hleftNe rfl
  have hbackNe : back ≠ [] := by
    rintro rfl
    exact hrightNe rfl
  exact isCollapsed_iff.mpr ⟨front ++ back, List.forall_mem_append.mpr ⟨hfront, hback⟩,
    (intercalate_append_space hfrontNe hbackNe).symm⟩

/-- A collapsed text does not start with a blank. -/
theorem IsCollapsed.stops (htext : IsCollapsed text) : Stops isBlank text := by
  obtain ⟨parts, hparts, rfl⟩ := isCollapsed_iff.mp htext
  cases parts with
  | nil => exact stops_nil
  | cons first back =>
    rw [List.forall_mem_cons] at hparts
    obtain ⟨c, word, rfl⟩ := List.exists_cons_of_ne_nil hparts.1.1
    have hc : isBlank c = false := hparts.1.2 c List.mem_cons_self
    cases back with
    | nil => exact stops_cons.mpr hc
    | cons next back => exact stops_cons.mpr hc

/-- A collapsed text does not end with a blank. -/
theorem IsCollapsed.stops_reverse (htext : IsCollapsed text) : Stops isBlank text.reverse := by
  obtain ⟨parts, hparts, rfl⟩ := isCollapsed_iff.mp htext
  induction parts using List.reverseRecOn with
  | nil => exact stops_nil
  | append_singleton front last =>
    rw [List.forall_mem_append, List.forall_mem_singleton] at hparts
    obtain ⟨c, word, hlast⟩ := List.exists_cons_of_ne_nil (mt List.reverse_eq_nil_iff.mp hparts.2.1)
    have hc : isBlank c = false := hparts.2.2 c (List.mem_reverse.mp (by simp [hlast]))
    by_cases hfront : front = []
    · rw [hfront, List.nil_append, List.intercalate_singleton, hlast]
      exact stops_cons.mpr hc
    · rw [← intercalate_append_space hfront (List.cons_ne_nil last []), List.intercalate_singleton,
        List.reverse_append, List.reverse_cons, hlast]
      exact stops_cons.mpr hc

/-- A collapsed text has no blanks to be trimmed. -/
theorem IsCollapsed.trim_eq (htext : IsCollapsed text) : trim text = text := by
  have hleft : text.dropWhile isBlank = text :=
    dropWhile_append_of_stops (List.forall_mem_nil _) htext.stops
  have hright : text.reverse.dropWhile isBlank = text.reverse :=
    dropWhile_append_of_stops (List.forall_mem_nil _) htext.stops_reverse
  rw [trim, trimLeft, hleft, trimRight, hright, List.reverse_reverse]

/-- A collapsed text is left where a blank in front of it is collapsed away. -/
theorem IsCollapsed.collapse_cons (htext : IsCollapsed text) (hc : isBlank c = true) :
    collapse (c :: text) = text := by
  rw [collapse, words_cons_of_isBlank hc]
  exact htext

/-- A blank in front of a text is trimmed. -/
theorem trim_cons_of_isBlank (hc : isBlank c = true) (text : List Char) :
    trim (c :: text) = trim text := by
  rw [trim, trimLeft, List.dropWhile_cons_of_pos hc, trim, trimLeft]

end ChangeImpact.Text
