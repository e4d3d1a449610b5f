import Mathlib.Data.List.Basic

/-!
# Results that go well

A result is a value or the reason why there is none. Steps one after the other go well if each does,
and so does a step for every item of a list, be it to transform the items or to choose among them.
-/

namespace ChangeImpact

variable {ε α β : Type}

/-- A result whose value is known went well. -/
theorem eq_ok_of_toOption {result : Except ε α} {value : α}
    (hvalue : result.toOption = some value) :
    result = .ok value := by
  cases result with
  | error fault => cases hvalue
  | ok found => exact congrArg Except.ok (Option.some.inj hvalue)

/-- Two steps go well if the first does, and the second with what the first gives. -/
theorem bind_eq_ok_iff {first : Except ε α} {next : α → Except ε β} {value : β} :
    (first >>= next) = .ok value ↔ ∃ found, first = .ok found ∧ next found = .ok value := by
  cases first <;> simp [bind, Except.bind]

/-- Two steps go well if both do. -/
theorem exists_bind_iff {first : Except ε α} {next : α → Except ε β} :
    (∃ value, (first >>= next) = .ok value) ↔
      ∃ found, first = .ok found ∧ ∃ value, next found = .ok value := by
  simp only [bind_eq_ok_iff]
  exact ⟨fun ⟨value, found, hfirst, hnext⟩ => ⟨found, hfirst, value, hnext⟩,
    fun ⟨found, hfirst, value, hnext⟩ => ⟨value, found, hfirst, hnext⟩⟩

/-- To transform its value makes no difference to whether a result goes well. -/
theorem map_eq_ok_iff {result : Except ε α} {f : α → β} {value : β} :
    result.map f = .ok value ↔ ∃ given, result = .ok given ∧ f given = value := by
  cases result <;> simp [Except.map]

/-- To report a fault in other words makes no difference to what goes well. -/
theorem mapError_eq_ok_iff {ε' : Type} {result : Except ε α} {words : ε → ε'} {value : α} :
    result.mapError words = .ok value ↔ result = .ok value := by
  cases result <;> simp [Except.mapError]

/-- A transformation of every item goes well if it does for each. -/
theorem exists_mapM_iff {step : α → Except ε β} {items : List α} :
    (∃ results, items.mapM step = .ok results) ↔ ∀ a ∈ items, ∃ result, step a = .ok result := by
  induction items with
  | nil => simp [pure, Except.pure]
  | cons a items ih =>
    rw [List.mapM_cons, exists_bind_iff, List.forall_mem_cons, ← ih]
    constructor
    · rintro ⟨result, hresult, hrest⟩
      obtain ⟨results, hresults, -⟩ := exists_bind_iff.mp hrest
      exact ⟨⟨result, hresult⟩, results, hresults⟩
    · rintro ⟨⟨result, hresult⟩, results, hresults⟩
      exact ⟨result, hresult, exists_bind_iff.mpr ⟨results, hresults, _, rfl⟩⟩

/-- A transformation of every item gives one result for each. -/
theorem length_of_mapM {step : α → Except ε β} {items : List α} {results : List β}
    (hresults : items.mapM step = .ok results) : results.length = items.length := by
  induction items generalizing results with
  | nil =>
    cases hresults
    rfl
  | cons a items ih =>
    rw [List.mapM_cons] at hresults
    obtain ⟨result, -, hrest⟩ := bind_eq_ok_iff.mp hresults
    obtain ⟨others, hothers, hcons⟩ := bind_eq_ok_iff.mp hrest
    cases hcons
    exact congrArg Nat.succ (ih hothers)

/-- A transformation of every item with known results gives these results. -/
theorem mapM_eq_ok {step : α → Except ε β} {result : α → β} {items : List α}
    (hitems : ∀ a ∈ items, step a = .ok (result a)) :
    items.mapM step = .ok (items.map result) := by
  induction items with
  | nil => rfl
  | cons a items ih =>
    rw [List.forall_mem_cons] at hitems
    rw [List.mapM_cons, hitems.1, ih hitems.2]
    rfl

/-- A choice among some items with known answers, with those chosen before. -/
theorem filterAuxM_eq_ok {choose : α → Except ε Bool} {answer : α → Bool} {items : List α}
    (hitems : ∀ a ∈ items, choose a = .ok (answer a)) (chosen : List α) :
    items.filterAuxM choose chosen = .ok ((items.filter answer).reverse ++ chosen) := by
  induction items generalizing chosen with
  | nil => rfl
  | cons a items ih =>
    rw [List.forall_mem_cons] at hitems
    rw [List.filterAuxM, hitems.1]
    refine (ih hitems.2 _).trans ?_
    cases hanswer : answer a <;> simp [hanswer]

/-- A choice among some items with known answers gives those that it is yes for. -/
theorem filterM_eq_ok {choose : α → Except ε Bool} {answer : α → Bool} {items : List α}
    (hitems : ∀ a ∈ items, choose a = .ok (answer a)) :
    items.filterM choose = .ok (items.filter answer) := by
  rw [List.filterM, filterAuxM_eq_ok hitems]
  exact congrArg Except.ok (by simp)

/-- A choice among some items, with those chosen before, goes well if it does for each. -/
theorem exists_filterAuxM_iff {choose : α → Except ε Bool} {items : List α} (chosen : List α) :
    (∃ found, items.filterAuxM choose chosen = .ok found) ↔
      ∀ a ∈ items, ∃ answer, choose a = .ok answer := by
  induction items generalizing chosen with
  | nil => simp [List.filterAuxM, pure, Except.pure]
  | cons a items ih =>
    rw [List.filterAuxM, exists_bind_iff, List.forall_mem_cons]
    simp only [ih, exists_and_right]

/-- A choice among some items goes well if it does for each. -/
theorem exists_filterM_iff {choose : α → Except ε Bool} {items : List α} :
    (∃ found, items.filterM choose = .ok found) ↔
      ∀ a ∈ items, ∃ answer, choose a = .ok answer := by
  rw [List.filterM, exists_bind_iff, ← exists_filterAuxM_iff []]
  simp [pure, Except.pure]

end ChangeImpact
