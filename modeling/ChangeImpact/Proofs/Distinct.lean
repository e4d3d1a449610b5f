import Mathlib.Data.List.Nodup

/-!
# Distinct items

`eraseDups` keeps the first of equal items. A list that grows by items it does not hold yet takes
on its `unseen` items: those that were not there before, each once, in the order of their first
occurrence.
-/

namespace ChangeImpact

variable {α : Type} [DecidableEq α]

/-- Induction along `eraseDups`: the first item is kept, and the rest is treated without the items
equal to it. -/
theorem eraseDups_induction {motive : List α → Prop} (nil : motive [])
    (cons : ∀ a rest, motive (rest.filter fun b => !b == a) → motive (a :: rest))
    (items : List α) : motive items := by
  induction hlength : items.length using Nat.strongRecOn generalizing items with
  | _ length ih =>
    cases items with
    | nil => exact nil
    | cons a rest =>
      have hle := List.length_filter_le (fun b => !b == a) rest
      rw [List.length_cons] at hlength
      exact cons a rest (ih _ (by omega) _ rfl)

/-- Erasing repeated items leaves the others in place. -/
theorem eraseDups_sublist (items : List α) : items.eraseDups.Sublist items := by
  induction items using eraseDups_induction with
  | nil => simp
  | cons a rest ih =>
    rw [List.eraseDups_cons]
    exact (ih.trans List.filter_sublist).cons_cons a

/-- No item is left twice. -/
theorem nodup_eraseDups (items : List α) : items.eraseDups.Nodup := by
  induction items using eraseDups_induction with
  | nil => simp
  | cons a rest ih =>
    rw [List.eraseDups_cons, List.nodup_cons]
    exact ⟨by simp, ih⟩

/-- The items that are not among those seen, each once, in the order of their first occurrence. -/
def unseen (seen items : List α) : List α := (items.filter fun a => !seen.contains a).eraseDups

/-- Among no elements there are none that are unseen. -/
@[simp] theorem unseen_nil (seen : List α) : unseen seen [] = [] := rfl

/-- Where nothing was seen before, only repeated items are dropped. -/
theorem unseen_of_nothing (items : List α) : unseen [] items = items.eraseDups := by
  simp [unseen]

/-- The unseen items are those that were not seen. -/
@[simp] theorem mem_unseen {seen items : List α} {a : α} :
    a ∈ unseen seen items ↔ a ∈ items ∧ a ∉ seen := by
  simp [unseen]

/-- No unseen item is listed twice. -/
theorem nodup_unseen (seen items : List α) : (unseen seen items).Nodup := nodup_eraseDups _

/-- An item that was seen is skipped. -/
theorem unseen_cons_of_mem {seen : List α} {a : α} (hseen : a ∈ seen) (rest : List α) :
    unseen seen (a :: rest) = unseen seen rest := by
  simp [unseen, hseen]

/-- An item that was not seen comes first, and is seen from then on. -/
theorem unseen_cons_of_not_mem {seen : List α} {a : α} (hnew : a ∉ seen) (rest : List α) :
    unseen seen (a :: rest) = a :: unseen (seen ++ [a]) rest := by
  have hkeep : (a :: rest).filter (fun b => !seen.contains b) =
      a :: rest.filter (fun b => !seen.contains b) :=
    List.filter_cons_of_pos (by simpa using hnew)
  rw [unseen, hkeep, List.eraseDups_cons, List.filter_filter, unseen]
  congr 3
  funext b
  by_cases hb : b = a <;> simp [hb]

end ChangeImpact
