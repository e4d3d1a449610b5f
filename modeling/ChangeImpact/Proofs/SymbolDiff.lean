import ChangeImpact.Export.Diff
import ChangeImpact.Proofs.SymbolKeys
import Mathlib.Data.List.Nodup
import Mathlib.Data.List.Perm.Basic
import Mathlib.Data.Prod.Basic

/-!
# Comparing two lists of symbols

A comparison puts every symbol of the first list among the removed, the modified or the unchanged
ones, and every symbol of the second list among the added, the modified or the unchanged ones. This
rests on different keys within each list: where a key occurs once, a symbol is looked up as itself.
Seen from the second list, the comparison is the same with its sides exchanged.
-/

namespace ChangeImpact.ExportDiff

variable {symbols base head : List ExportedSymbol} {symbol before after : ExportedSymbol}

/-- A symbol is found under its key where keys differ. -/
theorem find?_of_mem (hkeys : (symbols.map ExportedSymbol.key).Nodup) (hsymbol : symbol ∈ symbols) :
    find? symbols symbol.key = some symbol := by
  rw [find?]
  induction symbols with
  | nil => cases hsymbol
  | cons first rest ih =>
    rw [List.map_cons, List.nodup_cons] at hkeys
    obtain rfl | hrest := List.mem_cons.mp hsymbol
    · simp
    · have hne : first.key ≠ symbol.key :=
        fun hsame => hkeys.1 (List.mem_map.mpr ⟨symbol, hrest, hsame.symm⟩)
      rw [List.find?_cons_of_neg (by simpa using hne)]
      exact ih hkeys.2 hrest

/-- What is found under a key is the symbol of that key. -/
theorem find?_eq_some_iff (hkeys : (symbols.map ExportedSymbol.key).Nodup) {key : Bool × String} :
    find? symbols key = some symbol ↔ symbol ∈ symbols ∧ symbol.key = key := by
  constructor
  · intro hfound
    exact ⟨List.mem_of_find?_eq_some hfound, by simpa using List.find?_some hfound⟩
  · rintro ⟨hsymbol, rfl⟩
    exact find?_of_mem hkeys hsymbol

/-- Nothing is found under a key that no symbol has. -/
theorem isNone_find?_iff {key : Bool × String} :
    (find? symbols key).isNone = true ↔ ∀ symbol ∈ symbols, symbol.key ≠ key := by
  rw [find?, Option.isNone_iff_eq_none, List.find?_eq_none]
  simp

/-- Two symbols differ if their kinds or their signatures in collapsed form do. -/
theorem differs_eq_false_iff :
    differs before after = false ↔
      after.kind = before.kind ∧ after.plainSignature = before.plainSignature := by
  rw [differs, Bool.or_eq_false_iff, bne_eq_false_iff_eq, bne_eq_false_iff_eq,
    @eq_comm _ before.kind, @eq_comm _ before.plainSignature]

/-- No symbol differs from itself. -/
@[simp] theorem differs_self (symbol : ExportedSymbol) : differs symbol symbol = false :=
  differs_eq_false_iff.mpr ⟨rfl, rfl⟩

/-- Whether symbols differ does not depend on their order. -/
theorem differs_comm (before after : ExportedSymbol) :
    differs before after = differs after before := by
  simp [differs, bne_comm]

/-- Removed is what has a key that the second list lacks. -/
theorem mem_removed_iff :
    symbol ∈ (ofSymbols base head).removed ↔
      symbol ∈ base ∧ ∀ other ∈ head, other.key ≠ symbol.key := by
  rw [ofSymbols, List.mem_filter, isNone_find?_iff]

/-- Added is what is removed when the second list is compared with the first. -/
theorem added_ofSymbols (base head : List ExportedSymbol) :
    (ofSymbols base head).added = (ofSymbols head base).removed := rfl

/-- A symbol is modified if another one of its key is found that differs. -/
theorem mem_modified :
    (before, after) ∈ (ofSymbols base head).modified ↔
      before ∈ base ∧ find? head before.key = some after ∧ differs before after = true := by
  rw [ofSymbols, List.mem_filterMap]
  constructor
  · rintro ⟨symbol, hsymbol, hpair⟩
    cases hfound : find? head symbol.key with
    | none => simp [hfound] at hpair
    | some other =>
      simp only [hfound, Option.ite_none_right_eq_some, Option.some.injEq, Prod.mk.injEq] at hpair
      obtain ⟨hdiffers, rfl, rfl⟩ := hpair
      exact ⟨hsymbol, hfound, hdiffers⟩
  · rintro ⟨hbefore, hfound, hdiffers⟩
    exact ⟨before, hbefore, by simp [hfound, hdiffers]⟩

/-- Where the keys of the second list differ, modified are the symbols of one key that differ. -/
theorem mem_modified_of_nodup (hhead : (head.map ExportedSymbol.key).Nodup) :
    (before, after) ∈ (ofSymbols base head).modified ↔
      before ∈ base ∧ (after ∈ head ∧ after.key = before.key) ∧ differs before after = true := by
  rw [mem_modified, find?_eq_some_iff hhead]

/-- The modified symbols stand in the order of the first list. -/
theorem modified_sublist (base head : List ExportedSymbol) :
    ((ofSymbols base head).modified.map Prod.fst).Sublist base := by
  have hkept : (ofSymbols base head).modified.map Prod.fst =
      base.filter fun before => (find? head before.key).any (differs before) := by
    rw [ofSymbols, List.map_filterMap, ← List.filterMap_eq_filter]
    refine List.filterMap_congr fun before _ => ?_
    cases hfound : find? head before.key with
    | none => simp [hfound, Option.guard]
    | some after => cases hdiffers : differs before after <;> simp [hfound, hdiffers, Option.guard]
  rw [hkept]
  exact List.filter_sublist

/-- No pair is listed twice. -/
theorem nodup_modified (hbase : (base.map ExportedSymbol.key).Nodup) :
    (ofSymbols base head).modified.Nodup :=
  ((modified_sublist base head).nodup hbase.of_map).of_map

/-- Seen from the second list, the modified pairs have their sides exchanged. -/
theorem modified_perm_swap (hbase : (base.map ExportedSymbol.key).Nodup)
    (hhead : (head.map ExportedSymbol.key).Nodup) :
    (ofSymbols head base).modified.Perm ((ofSymbols base head).modified.map Prod.swap) := by
  have hmodified : (ofSymbols base head).modified.Nodup := nodup_modified hbase
  have hswapped := hmodified.map Prod.swap_injective
  rw [List.perm_ext_iff_of_nodup (nodup_modified hhead) hswapped]
  rintro ⟨after, before⟩
  have hback : (after, before) ∈ (ofSymbols base head).modified.map Prod.swap ↔
      (before, after) ∈ (ofSymbols base head).modified :=
    List.mem_map_of_injective (a := (before, after)) Prod.swap_injective
  rw [hback, mem_modified_of_nodup hbase, mem_modified_of_nodup hhead, differs_comm after before]
  constructor
  · rintro ⟨hafter, ⟨hbefore, hkey⟩, hdiffers⟩
    exact ⟨hbefore, ⟨hafter, hkey.symm⟩, hdiffers⟩
  · rintro ⟨hbefore, ⟨hafter, hkey⟩, hdiffers⟩
    exact ⟨hafter, ⟨hbefore, hkey.symm⟩, hdiffers⟩

/-- Nothing changes from symbols with different keys to the same symbols. -/
theorem ofSymbols_self (hkeys : (symbols.map ExportedSymbol.key).Nodup) :
    ofSymbols symbols symbols = {} := by
  have hremoved : (ofSymbols symbols symbols).removed = [] := by
    rw [List.eq_nil_iff_forall_not_mem]
    intro symbol hmem
    obtain ⟨hsymbol, hlost⟩ := mem_removed_iff.mp hmem
    exact hlost symbol hsymbol rfl
  have hmodified : (ofSymbols symbols symbols).modified = [] := by
    rw [List.eq_nil_iff_forall_not_mem]
    rintro ⟨before, after⟩ hmem
    obtain ⟨hbefore, ⟨hafter, hkey⟩, hdiffers⟩ := (mem_modified_of_nodup hkeys).mp hmem
    have hfound := find?_of_mem hkeys hafter
    rw [hkey, find?_of_mem hkeys hbefore, Option.some.injEq] at hfound
    rw [hfound, differs_self] at hdiffers
    cases hdiffers
  calc ofSymbols symbols symbols
      = ⟨(ofSymbols symbols symbols).removed, (ofSymbols symbols symbols).added,
          (ofSymbols symbols symbols).modified⟩ := rfl
    _ = {} := by rw [added_ofSymbols, hremoved, hmodified]

/-! ### Every symbol once -/

/-- A symbol is unchanged if the other list has one of its key, its kind and its signature in
collapsed form, where a missing signature counts as empty. -/
def Unchanged (others : List ExportedSymbol) (symbol : ExportedSymbol) : Prop :=
  ∃ other ∈ others, other.key = symbol.key ∧ other.kind = symbol.kind ∧
    other.plainSignature = symbol.plainSignature

/-- Exactly one of three statements holds. -/
def ExactlyOne (p q r : Prop) : Prop := (p ∧ ¬ q ∧ ¬ r) ∨ (¬ p ∧ q ∧ ¬ r) ∨ (¬ p ∧ ¬ q ∧ r)

/-- A comparison accounts for every symbol of both lists once, in the order of the lists. What is
removed or added has a key that the other list lacks, and what is modified comes in pairs of one
key. -/
structure Accounts (base head : List ExportedSymbol) (diff : ExportDiff) : Prop where
  of_base : ∀ before ∈ base, ExactlyOne (before ∈ diff.removed)
    (before ∈ diff.modified.map Prod.fst) (Unchanged head before)
  of_head : ∀ after ∈ head, ExactlyOne (after ∈ diff.added)
    (after ∈ diff.modified.map Prod.snd) (Unchanged base after)
  key_removed : ∀ before ∈ diff.removed, ∀ after ∈ head, after.key ≠ before.key
  key_added : ∀ after ∈ diff.added, ∀ before ∈ base, before.key ≠ after.key
  key_modified : ∀ pair ∈ diff.modified, pair.2 ∈ head ∧ pair.2.key = pair.1.key
  removed_sublist : diff.removed.Sublist base
  added_sublist : diff.added.Sublist head
  modified_sublist : (diff.modified.map Prod.fst).Sublist base

/-- A symbol of the first list is modified if the other list has a symbol of its key that
differs. -/
theorem mem_map_fst_modified_iff (hhead : (head.map ExportedSymbol.key).Nodup)
    (hbefore : before ∈ base) : before ∈ (ofSymbols base head).modified.map Prod.fst ↔
      ∃ after ∈ head, after.key = before.key ∧ differs before after = true := by
  rw [List.mem_map]
  constructor
  · rintro ⟨⟨_, after⟩, hpair, rfl⟩
    obtain ⟨-, ⟨hafter, hkey⟩, hdiffers⟩ := (mem_modified_of_nodup hhead).mp hpair
    exact ⟨after, hafter, hkey, hdiffers⟩
  · rintro ⟨after, hafter, hkey, hdiffers⟩
    have hpair := (mem_modified_of_nodup hhead).mpr ⟨hbefore, ⟨hafter, hkey⟩, hdiffers⟩
    exact ⟨(before, after), hpair, rfl⟩

/-- A symbol of the first list is removed, modified or unchanged, and only one of these. -/
theorem exactlyOne_of_mem (hhead : (head.map ExportedSymbol.key).Nodup) (hbefore : before ∈ base) :
    ExactlyOne (before ∈ (ofSymbols base head).removed)
      (before ∈ (ofSymbols base head).modified.map Prod.fst) (Unchanged head before) := by
  have hunchanged : Unchanged head before ↔
      ∃ after ∈ head, after.key = before.key ∧ differs before after = false := by
    simp only [Unchanged, differs_eq_false_iff]
  rw [ExactlyOne, mem_removed_iff, mem_map_fst_modified_iff hhead hbefore, hunchanged]
  cases hfound : find? head before.key with
  | none =>
    have hlost := isNone_find?_iff.mp (Option.isNone_iff_eq_none.mpr hfound)
    exact .inl ⟨⟨hbefore, hlost⟩, fun ⟨other, hother, hkey, _⟩ => hlost other hother hkey,
      fun ⟨other, hother, hkey, _⟩ => hlost other hother hkey⟩
  | some after =>
    obtain ⟨hafter, hkey⟩ := (find?_eq_some_iff hhead).mp hfound
    -- No other symbol has the key, so the comparison with this one decides.
    have honly : ∀ other ∈ head, other.key = before.key → other = after := fun other hother hsame =>
      List.inj_on_of_nodup_map hhead hother hafter (hsame.trans hkey.symm)
    have hkept : ¬ (before ∈ base ∧ ∀ other ∈ head, other.key ≠ before.key) :=
      fun h => h.2 after hafter hkey
    cases hdiffers : differs before after with
    | true =>
      refine .inr (.inl ⟨hkept, ⟨after, hafter, hkey, hdiffers⟩, ?_⟩)
      rintro ⟨other, hother, hsame, hequal⟩
      rw [honly other hother hsame, hdiffers] at hequal
      cases hequal
    | false =>
      refine .inr (.inr ⟨hkept, ?_, ⟨after, hafter, hkey, hdiffers⟩⟩)
      rintro ⟨other, hother, hsame, hother_differs⟩
      rw [honly other hother hsame, hdiffers] at hother_differs
      cases hother_differs

/-- Where keys differ within each list, a comparison accounts for every symbol once. -/
theorem accounts_ofSymbols (hbase : (base.map ExportedSymbol.key).Nodup)
    (hhead : (head.map ExportedSymbol.key).Nodup) : Accounts base head (ofSymbols base head) where
  of_base _ hbefore := exactlyOne_of_mem hhead hbefore
  of_head after hafter := by
    have hside : after ∈ (ofSymbols base head).modified.map Prod.snd ↔
        after ∈ (ofSymbols head base).modified.map Prod.fst := by
      rw [((modified_perm_swap hbase hhead).map Prod.fst).mem_iff, List.map_map]
      rfl
    rw [added_ofSymbols, hside]
    exact exactlyOne_of_mem hbase hafter
  key_removed _ hremoved := (mem_removed_iff.mp hremoved).2
  key_added _ hadded := (mem_removed_iff.mp hadded).2
  key_modified _ hpair := ((mem_modified_of_nodup hhead).mp hpair).2.1
  removed_sublist := List.filter_sublist
  added_sublist := List.filter_sublist
  modified_sublist := modified_sublist base head

/-- The symbols of a module have different keys, and a comparison of two modules accounts for every
symbol of both once. Exchanging the modules exchanges what is removed and what is added and the
sides of what is modified, so no module differs from itself. -/
theorem accounts_ofTexts (base head : String) :
    ((Export.symbols base).map ExportedSymbol.key).Nodup ∧
      Accounts (Export.symbols base) (Export.symbols head) (ofTexts base head) ∧
      (ofTexts head base).removed = (ofTexts base head).added ∧
      (ofTexts head base).added = (ofTexts base head).removed ∧
      (ofTexts head base).modified.Perm ((ofTexts base head).modified.map Prod.swap) ∧
      (ofTexts base base).isEmpty = true := by
  have hbase : ((Export.symbols base).map ExportedSymbol.key).Nodup := Export.nodup_firstByKey _
  have hhead : ((Export.symbols head).map ExportedSymbol.key).Nodup := Export.nodup_firstByKey _
  refine ⟨hbase, accounts_ofSymbols hbase hhead, rfl, rfl, modified_perm_swap hbase hhead, ?_⟩
  rw [ofTexts, ofSymbols_self hbase]
  rfl

end ChangeImpact.ExportDiff
