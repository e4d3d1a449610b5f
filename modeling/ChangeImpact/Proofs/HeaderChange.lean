import ChangeImpact.Proofs.Breaking
import ChangeImpact.Proofs.ModuleExports
import ChangeImpact.Proofs.SymbolDiff

/-!
# Changes of a header

Two versions of a module may differ in one function only. The function is reported as changed
exactly if what is recorded of its header differs. What is lost of a header, behind a parenthesis
that closes within the parameters, may change without a report.
-/

namespace ChangeImpact

namespace ExportDiff

/-- The second list has the symbols of the first one, but for one that another one of its key
replaces. -/
structure Replaced (before after : ExportedSymbol) (base head : List ExportedSymbol) : Prop where
  nodup_base : (base.map ExportedSymbol.key).Nodup
  nodup_head : (head.map ExportedSymbol.key).Nodup
  mem_base : before ∈ base
  mem_head : after ∈ head
  key_eq : after.key = before.key
  mem_of_ne : ∀ symbol ∈ base, symbol.key ≠ before.key → symbol ∈ head

namespace Replaced

variable {base head : List ExportedSymbol} {before after : ExportedSymbol}

/-- The replaced symbol is compared with the one that replaces it. -/
theorem find?_eq (h : Replaced before after base head) :
    find? head before.key = some after := by
  rw [← h.key_eq]
  exact find?_of_mem h.nodup_head h.mem_head

/-- The other symbols are compared with themselves. -/
theorem find?_of_ne (h : Replaced before after base head) {symbol : ExportedSymbol}
    (hsymbol : symbol ∈ base) (hne : symbol.key ≠ before.key) :
    find? head symbol.key = some symbol :=
  find?_of_mem h.nodup_head (h.mem_of_ne symbol hsymbol hne)

/-- Nothing is removed. -/
theorem removed_eq_nil (h : Replaced before after base head) :
    (ofSymbols base head).removed = [] := by
  rw [ofSymbols, List.filter_eq_nil_iff]
  intro symbol hsymbol
  by_cases hkey : symbol.key = before.key
  · simp [hkey, h.find?_eq]
  · simp [h.find?_of_ne hsymbol hkey]

/-- Symbols that are found as they are have not been modified. -/
theorem modified_of_same {symbols : List ExportedSymbol}
    (hsame : ∀ symbol ∈ symbols, find? head symbol.key = some symbol) :
    (ofSymbols symbols head).modified = [] := by
  rw [ofSymbols, List.filterMap_eq_nil_iff]
  intro symbol hsymbol
  simp [hsame symbol hsymbol]

/-- The replaced symbol is modified if it differs, and no other one is. -/
theorem modified_eq (h : Replaced before after base head) :
    (ofSymbols base head).modified =
      if differs before after then [(before, after)] else [] := by
  obtain ⟨left, right, hbase⟩ := List.append_of_mem h.mem_base
  have hkeys := h.nodup_base
  rw [hbase, List.map_append, List.map_cons, List.nodup_middle, List.nodup_cons,
    ← List.map_append] at hkeys
  have hothers : ∀ symbol ∈ left ++ right, find? head symbol.key = some symbol := by
    intro symbol hsymbol
    refine h.find?_of_ne ?_ fun hsame => hkeys.1 ?_
    · rw [hbase]
      exact List.perm_middle.symm.subset (List.mem_cons_of_mem before hsymbol)
    · rw [← hsame]
      exact List.mem_map_of_mem hsymbol
  rw [List.forall_mem_append] at hothers
  have hleft := modified_of_same hothers.1
  have hright := modified_of_same hothers.2
  simp only [ofSymbols] at hleft hright ⊢
  rw [hbase, List.filterMap_append, List.filterMap_cons, hleft, hright, h.find?_eq]
  simp only [List.nil_append]
  split_ifs <;> rfl

end Replaced

end ExportDiff

namespace Export

open Text Declaration ExportDiff

variable {lead : List Char} {module front back : List Written} {before after : Written}

/-- The passes record every declaration of a module and nothing else. -/
theorem mem_recordedByPass {symbol : ExportedSymbol} :
    symbol ∈ recordedByPass module ↔ ∃ w ∈ module, w.recorded = symbol := by
  simp only [recordedByPass, List.mem_flatMap, List.mem_map, List.mem_filter, decide_eq_true_eq]
  constructor
  · rintro ⟨number, -, w, ⟨hw, -⟩, hsymbol⟩
    exact ⟨w, hw, hsymbol⟩
  · rintro ⟨w, hw, hsymbol⟩
    exact ⟨w.declaration.passNumber, w.declaration.passNumber_mem_range, w, ⟨hw, rfl⟩, hsymbol⟩

/-- Where one declaration takes the place of another one of its key, one symbol is replaced. -/
theorem replaced_symbols (hlead : ∀ c ∈ lead, isBlank c = true)
    (hkeys : ((front ++ before :: back).map (·.declaration.symbol.key)).Nodup)
    (hkey : after.declaration.symbol.key = before.declaration.symbol.key) :
    Replaced before.recorded after.recorded (symbols (moduleText lead (front ++ before :: back)))
      (symbols (moduleText lead (front ++ after :: back))) := by
  have hkeys' : ((front ++ after :: back).map (·.declaration.symbol.key)).Nodup := by
    simpa [hkey] using hkeys
  rw [symbols_eq_recordedByPass hlead hkeys, symbols_eq_recordedByPass hlead hkeys']
  refine ⟨nodup_recordedByPass hkeys, nodup_recordedByPass hkeys',
    mem_recordedByPass.mpr ⟨before, by simp, rfl⟩, mem_recordedByPass.mpr ⟨after, by simp, rfl⟩,
    by rw [after.key_recorded, before.key_recorded, hkey], ?_⟩
  intro symbol hsymbol hne
  obtain ⟨w, hw, rfl⟩ := mem_recordedByPass.mp hsymbol
  have hother : w ≠ before := by
    rintro rfl
    exact hne rfl
  refine mem_recordedByPass.mpr ⟨w, ?_, rfl⟩
  simp only [List.mem_append, List.mem_cons, hother, false_or] at hw ⊢
  exact hw.imp_right .inr

end Export

namespace BreakingChange

open Text Export Declaration ExportDiff

/-- Where one symbol is replaced by one of its kind, the report is on that symbol. -/
theorem ofModified_of_replaced {base head : String} {before after : ExportedSymbol}
    (h : Replaced before after (symbols base) (symbols head)) (hkind : before.kind = after.kind)
    (path : String) (consumers : List String) :
    ofModified path consumers base head =
      if differs before after then
        [{ filePath := path
           kind := .changedSignature
           symbolName := before.name
           before := before.description
           after := some after.description
           severity := .medium
           consumers := consumers }]
      else [] := by
  have hmodified := h.modified_eq
  rw [ofModified, ofTexts, h.removed_eq_nil, List.map_nil, List.nil_append]
  split_ifs at hmodified ⊢ with hdiffers
  · have hmem : (before, after) ∈ (ofSymbols (symbols base) (symbols head)).modified := by
      rw [hmodified]
      exact List.mem_singleton_self _
    have haltered := alteration?_of_mem_modified hmem path consumers
    rw [hmodified, List.filterMap_cons, haltered, if_pos hkind]
    rfl
  · rw [hmodified]
    rfl

section Header

variable {lead : List Char} {front back : List Written} {before after : Written}
  {isDefault isAsync isAsync' : Bool} {name : Name} {params params' : Part []}
  {returns returns' : Option (Part ['\x7b', ';'])} {body body' : Part []}

/-- Functions of one name differ as symbols where anything differs in what is recorded. -/
theorem differs_recorded
    (hbefore : before.declaration = .function isDefault isAsync name params returns body)
    (hafter : after.declaration = .function isDefault isAsync' name params' returns' body') :
    differs before.recorded after.recorded = true ↔ before.recorded ≠ after.recorded := by
  rw [Written.recorded, Written.recorded, hbefore, hafter]
  simp [recorded, Export.symbol, differs, ExportedSymbol.plainSignature, String.ofList_inj]

/-- Two versions of a module that differ in one function are reported exactly if different symbols
are recorded for it. -/
theorem ofModified_function
    (hbefore : before.declaration = .function isDefault isAsync name params returns body)
    (hafter : after.declaration = .function isDefault isAsync' name params' returns' body')
    (hlead : ∀ c ∈ lead, isBlank c = true)
    (hkeys : ((front ++ before :: back).map (·.declaration.symbol.key)).Nodup)
    (path : String) (consumers : List String) :
    ofModified path consumers (moduleText lead (front ++ before :: back))
        (moduleText lead (front ++ after :: back)) =
      if before.recorded = after.recorded then []
      else
        [{ filePath := path
           kind := .changedSignature
           symbolName := String.ofList name.chars
           before := before.recorded.description
           after := some after.recorded.description
           severity := .medium
           consumers := consumers }] := by
  have hkey : after.declaration.symbol.key = before.declaration.symbol.key := by
    rw [hbefore, hafter]
    rfl
  have hkind : before.recorded.kind = after.recorded.kind := by
    rw [Written.recorded, Written.recorded, hbefore, hafter]
    rfl
  have hname : before.recorded.name = String.ofList name.chars := by
    rw [Written.recorded, hbefore]
    rfl
  have hdiffers := differs_recorded hbefore hafter
  rw [ofModified_of_replaced (replaced_symbols hlead hkeys hkey) hkind, hname]
  simp only [hdiffers, ne_eq, ite_not]

/-- What a header has behind a parenthesis that closes within the parameters may change without a
report, unless a colon follows the parenthesis. -/
theorem ofModified_of_lost
    (hbefore : before.declaration = .function isDefault isAsync name params returns body)
    (hafter : after.declaration = .function isDefault isAsync' name params' returns' body')
    (hlead : ∀ c ∈ lead, isBlank c = true)
    (hkeys : ((front ++ before :: back).map (·.declaration.symbol.key)).Nodup)
    {inside rest rest' : List Char} (hinside : ')' ∉ inside)
    (hparams : params.chars = inside ++ ')' :: rest)
    (hrest : Stops (· == ':') (rest.dropWhile isBlank))
    (hparams' : params'.chars = inside ++ ')' :: rest')
    (hrest' : Stops (· == ':') (rest'.dropWhile isBlank)) (path : String)
    (consumers : List String) :
    ofModified path consumers (moduleText lead (front ++ before :: back))
      (moduleText lead (front ++ after :: back)) = [] := by
  rw [ofModified_function hbefore hafter hlead hkeys, if_pos]
  rw [Written.recorded, Written.recorded, hbefore, hafter, recorded, recorded, hparams, hparams',
    recordedSignature_append_cons hinside hrest, recordedSignature_append_cons hinside hrest']

/-- Of a function of a module the symbol is recorded that is declared exactly if nothing of its
parameters is lost, and two versions of the module that differ in the function are reported exactly
if what is recorded differs. -/
theorem report_of_header
    (hbefore : before.declaration = .function isDefault isAsync name params returns body)
    (hafter : after.declaration = .function isDefault isAsync' name params' returns' body')
    (hlead : ∀ c ∈ lead, isBlank c = true)
    (hkeys : ((front ++ before :: back).map (·.declaration.symbol.key)).Nodup)
    (path : String) (consumers : List String) :
    let base := moduleText lead (front ++ before :: back)
    let head := moduleText lead (front ++ after :: back)
    find? (symbols base) (isDefault, String.ofList name.chars) = some before.recorded ∧
      (before.recorded = before.declaration.symbol ↔ Kept params.chars) ∧
      ofModified path consumers base head =
        if before.recorded = after.recorded then []
        else
          [{ filePath := path
             kind := .changedSignature
             symbolName := String.ofList name.chars
             before := before.recorded.description
             after := some after.recorded.description
             severity := .medium
             consumers := consumers }] := by
  intro base head
  have hkey : before.declaration.symbol.key = (isDefault, String.ofList name.chars) := by
    rw [hbefore]
    rfl
  refine ⟨?_, ?_, ofModified_function hbefore hafter hlead hkeys path consumers⟩
  · have hsame := replaced_symbols hlead hkeys (Eq.refl before.declaration.symbol.key)
    rw [← hkey, ← before.key_recorded]
    exact hsame.find?_eq
  · rw [Written.recorded, hbefore]
    exact recorded_function_eq_symbol_iff _ _ _ _ _ _ _

/-- A function with parameters. -/
def functionOf (params : Part []) : Written :=
  .line (.function false false ⟨"f".toList, by decide, by decide +kernel, by decide⟩ params
    (some ⟨"string".toList, by decide, by decide⟩) ⟨[], by decide, by decide⟩)

/-- A parameter that is called back. -/
def callback : Part [] := ⟨"cb: (e: E) => void".toList, by decide, by decide⟩

/-- The parameter with another type of argument. -/
def otherCallback : Part [] := ⟨"cb: (e: F) => void".toList, by decide, by decide⟩

/-- What is recorded of a parameter that is called back changes with the type of its argument. -/
theorem report_of_header_callback :
    let base := "\nexport function f(cb: (e: E) => void): string \x7b\x7d\n"
    let head := "\nexport function f(cb: (e: F) => void): string \x7b\x7d\n"
    find? (symbols base) (false, "f") = some ⟨"f", .function, some "(cb: (e: E)", false⟩ ∧
      ofModified "a.ts" ["b.ts"] base head =
        [⟨"a.ts", .changedSignature, "f", "function f (cb: (e: E)", some "function f (cb: (e: F)",
          .medium, ["b.ts"]⟩] := by
  obtain ⟨hfound, -, hreport⟩ := @report_of_header ['\n'] [] [] (functionOf callback)
    (functionOf otherCallback) _ _ _ _ _ _ _ _ _ _ rfl rfl (by decide) (by decide) "a.ts" ["b.ts"]
  have hbase : moduleText ['\n'] [functionOf callback] =
      "\nexport function f(cb: (e: E) => void): string \x7b\x7d\n" := by decide +kernel
  have hhead : moduleText ['\n'] [functionOf otherCallback] =
      "\nexport function f(cb: (e: F) => void): string \x7b\x7d\n" := by decide +kernel
  have hbefore : (functionOf callback).recorded =
      ⟨"f", .function, some "(cb: (e: E)", false⟩ := by decide +kernel
  have hafter : (functionOf otherCallback).recorded =
      ⟨"f", .function, some "(cb: (e: F)", false⟩ := by decide +kernel
  rw [List.nil_append, hbase, hbefore] at hfound
  rw [List.nil_append, List.nil_append, hbase, hhead, hbefore, hafter] at hreport
  exact ⟨hfound, hreport⟩

/-- The type of the second parameter changes without a report. -/
theorem report_of_lost_parameter :
    let base := "export function f(cb: (e: E) => void, x: number): string \x7b\x7d"
    let head := "export function f(cb: (e: E) => void, x: string): string \x7b\x7d"
    symbols base = [⟨"f", .function, some "(cb: (e: E)", false⟩] ∧
      ofModified "a.ts" [] base head = [] := by
  decide +kernel

end Header

end BreakingChange

end ChangeImpact
