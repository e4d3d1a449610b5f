import ChangeImpact.Export.Comment
import ChangeImpact.Proofs.Scanning

/-!
# Texts without marks

A mark that holds none of the separators stands in a text only between two of them. A text in which
no comment is opened is left as it is when comments are removed.
-/

namespace ChangeImpact.Text

variable {mark left right text : List Char} {c : Char}

/-- The mark stands nowhere in the text. -/
def Without (mark text : List Char) : Prop := ¬ mark <:+: text

instance (mark text : List Char) : Decidable (Without mark text) :=
  inferInstanceAs (Decidable (¬ mark <:+: text))

/-- A prefix of a text without a character ends before that character. -/
theorem prefix_of_prefix_append_cons (hc : c ∉ mark) (hmark : mark <+: left ++ c :: right) :
    mark <+: left := by
  induction left generalizing mark with
  | nil =>
    cases mark with
    | nil => exact List.prefix_rfl
    | cons d mark =>
      rw [List.nil_append, List.cons_prefix_cons] at hmark
      exact absurd (by simp [hmark.1]) hc
  | cons d left ih =>
    cases mark with
    | nil => exact List.nil_prefix
    | cons e mark =>
      rw [List.cons_append, List.cons_prefix_cons] at hmark
      rw [List.mem_cons, not_or] at hc
      exact List.cons_prefix_cons.mpr ⟨hmark.1, ih hc.2 hmark.2⟩

/-- A mark that a character does not belong to stands on one side of it. -/
theorem without_append_cons (hc : c ∉ mark) :
    Without mark (left ++ c :: right) ↔ Without mark left ∧ Without mark right := by
  simp only [Without, ← not_or, not_iff_not]
  constructor
  · intro hinfix
    induction left with
    | nil =>
      rw [List.nil_append, List.infix_cons_iff] at hinfix
      obtain hprefix | hright := hinfix
      · rw [← List.nil_append (c :: right)] at hprefix
        exact .inl (prefix_of_prefix_append_cons hc hprefix).isInfix
      · exact .inr hright
    | cons d left ih =>
      rw [List.cons_append, List.infix_cons_iff] at hinfix
      obtain hprefix | hinfix := hinfix
      · rw [← List.cons_append] at hprefix
        exact .inl (prefix_of_prefix_append_cons hc hprefix).isInfix
      · exact (ih hinfix).imp_left List.infix_cons
  · rintro (hleft | hright)
    · exact hleft.trans (List.infix_append' [] left (c :: right))
    · exact hright.trans ⟨left ++ [c], [], by simp⟩

/-- A text that ends with a character that no mark has does not start one that goes on. -/
theorem not_prefix_append (hc : c ∉ mark) (hleft : Without mark left) (right : List Char) :
    ¬ mark <+: left ++ c :: right :=
  fun hmark => hleft (prefix_of_prefix_append_cons hc hmark).isInfix

/-- What a scanner reads nowhere is not taken out of a text. -/
theorem erase_eq_self {scan : Scanner Unit}
    (hrefused : ∀ part, part ≠ [] → part <:+ text → scan part = none) : erase scan text = text := by
  rw [erase]
  induction text with
  | nil => rfl
  | cons c text ih =>
    have hhere := hrefused (c :: text) (by simp) List.suffix_rfl
    rw [eraseFrom, hhere]
    simp only
    rw [ih fun part hne hpart => hrefused part hne (hpart.trans (List.suffix_cons c text))]

/-- A scanner that starts with a mark refuses the parts of a text without the mark. -/
theorem bind_exactly_eq_none {α : Type} {mark : String} {part : List Char}
    (htext : Without mark.toList text) (hpart : part <:+ text) (next : Unit → Scanner α) :
    (Scanner.exactly mark >>= next) part = none := by
  have hprefix : ¬ mark.toList <+: part := fun h => htext (h.isInfix.trans hpart.isInfix)
  rw [Scanner.bind_apply, Scanner.exactly_eq_none hprefix]
  rfl

end ChangeImpact.Text

namespace ChangeImpact.Export

open Text

/-- A text that opens no comment has none to take out. -/
theorem withoutComments_eq_self {text : List Char} (hline : Without "//".toList text)
    (hblock : Without "/*".toList text) : withoutComments text = text := by
  have hkept : erase blockComment text = text :=
    erase_eq_self fun part _ hpart => bind_exactly_eq_none hblock hpart _
  rw [withoutComments, hkept]
  exact erase_eq_self fun part _ hpart => bind_exactly_eq_none hline hpart _

end ChangeImpact.Export
