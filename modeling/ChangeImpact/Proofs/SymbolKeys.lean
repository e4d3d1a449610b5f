import ChangeImpact.Export.Diff
import Mathlib.Data.List.Nodup

/-!
# Symbols with the same key

Of several symbols with one key the first one is kept. So the kept symbols have different keys, and
a key is looked up in them as in all symbols.
-/

namespace ChangeImpact.Export

open ExportDiff

variable {symbols more : List ExportedSymbol} {key : Bool × String}

/-- The first symbol is kept, and of the others those with other keys count. -/
theorem firstByKey_cons (first : ExportedSymbol) (rest : List ExportedSymbol) :
    firstByKey (first :: rest) = first :: firstByKey (rest.filter (·.key != first.key)) := by
  have hother : (fun other : ExportedSymbol => decide ((other.key == first.key) = false)) =
      (·.key != first.key) := by
    funext other
    cases hsame : other.key == first.key <;> simp [bne, hsame]
  rw [firstByKey, List.eraseDupsBy_cons, hother, firstByKey]

/-- Induction along the kept symbols. -/
theorem firstByKey_induction {motive : List ExportedSymbol → Prop} (nil : motive [])
    (cons : ∀ first rest, motive (rest.filter (·.key != first.key)) → motive (first :: rest))
    (symbols : List ExportedSymbol) : motive symbols := by
  induction hlength : symbols.length using Nat.strongRecOn generalizing symbols with
  | _ length ih =>
    cases symbols with
    | nil => exact nil
    | cons first rest =>
      have hshorter := List.length_filter_le (·.key != first.key) rest
      rw [List.length_cons] at hlength
      exact cons first rest (ih _ (by omega) _ rfl)

/-- Only symbols that are there are kept. -/
theorem firstByKey_subset (symbols : List ExportedSymbol) : firstByKey symbols ⊆ symbols := by
  induction symbols using firstByKey_induction with
  | nil => exact List.Subset.refl []
  | cons first rest ih =>
    rw [firstByKey_cons]
    exact List.cons_subset_cons first (List.Subset.trans ih (List.filter_subset_self rest))

/-- Different symbols are kept under different keys. -/
theorem nodup_firstByKey (symbols : List ExportedSymbol) :
    ((firstByKey symbols).map ExportedSymbol.key).Nodup := by
  induction symbols using firstByKey_induction with
  | nil => exact List.nodup_nil
  | cons first rest ih =>
    rw [firstByKey_cons, List.map_cons, List.nodup_cons]
    refine ⟨fun hmem => ?_, ih⟩
    obtain ⟨other, hother, hkey⟩ := List.mem_map.mp hmem
    have hne := (List.mem_filter.mp (firstByKey_subset _ hother)).2
    simp [hkey] at hne

/-- Symbols whose keys differ are all kept. -/
theorem firstByKey_eq_self (hkeys : (symbols.map ExportedSymbol.key).Nodup) :
    firstByKey symbols = symbols := by
  induction symbols with
  | nil => rfl
  | cons first rest ih =>
    rw [List.map_cons, List.nodup_cons] at hkeys
    have hkept : rest.filter (·.key != first.key) = rest := by
      rw [List.filter_eq_self]
      intro other hother
      rw [bne_iff_ne]
      exact fun hsame => hkeys.1 (List.mem_map.mpr ⟨other, hother, hsame⟩)
    rw [firstByKey_cons, hkept, ih hkeys.2]

/-- A key is looked up in the kept symbols as in all symbols. -/
theorem find?_firstByKey (symbols : List ExportedSymbol) (key : Bool × String) :
    find? (firstByKey symbols) key = find? symbols key := by
  induction symbols using firstByKey_induction with
  | nil => rfl
  | cons first rest ih =>
    rw [firstByKey_cons, find?, find?]
    by_cases hkey : first.key = key
    · rw [List.find?_cons_of_pos (by simpa using hkey),
        List.find?_cons_of_pos (by simpa using hkey)]
    · rw [List.find?_cons_of_neg (by simpa using hkey),
        List.find?_cons_of_neg (by simpa using hkey)]
      rw [find?, find?, List.find?_filter] at ih
      rw [ih]
      refine congrArg (rest.find? ·) (funext fun other => ?_)
      by_cases hother : other.key = key
      · simp [hother, Ne.symm hkey]
      · simp [hother]

/-- Of the symbols with one key, one is kept. -/
theorem exists_mem_firstByKey {symbol : ExportedSymbol} (hsymbol : symbol ∈ symbols) :
    ∃ kept ∈ firstByKey symbols, kept.key = symbol.key := by
  have hfound : (find? (firstByKey symbols) symbol.key).isSome := by
    rw [find?_firstByKey, find?, List.find?_isSome]
    exact ⟨symbol, hsymbol, by simp⟩
  obtain ⟨kept, hkept⟩ := Option.isSome_iff_exists.mp hfound
  exact ⟨kept, List.mem_of_find?_eq_some hkept, by simpa using List.find?_some hkept⟩

/-- Symbols without a key are passed over. -/
theorem find?_append_of_ne (hne : ∀ symbol ∈ symbols, symbol.key ≠ key) :
    find? (symbols ++ more) key = find? more key := by
  have hnone : symbols.find? (fun symbol => symbol.key == key) = none := by
    simpa using hne
  rw [find?, List.find?_append, hnone, Option.none_or, find?]

end ChangeImpact.Export
