import ChangeImpact.Proofs.DeclarationPasses
import ChangeImpact.Proofs.RecordedSignature
import ChangeImpact.Proofs.SymbolKeys

/-!
# The exports of a module

The symbols of a module that is a sequence of declarations are those recorded for its declarations,
pass by pass and in the order of the text within a pass. Where no parameter list has a closing
parenthesis inside, these are the symbols that are declared.
-/

namespace ChangeImpact.Export

open Text Declaration

section Passes

variable {lead : List Char} {module : List Written}

/-- What a pass finds in a module is what it records of the single declarations. -/
theorem occurrences_module {α : Type} {scan : Scanner α}
    {found : Occurrence α → List ExportedSymbol} {number : ℕ}
    (hmark : ∀ text, ¬ "export".toList <+: text → scan text = none)
    (hreads : ∀ (layout : Layout) (d : Declaration),
      Reads scan found (d.text layout) (d.onPass layout number))
    (hlead : ∀ c ∈ lead, isBlank c = true) (module : List Written) :
    (occurrences scan (lead ++ module.flatMap Written.text)).flatMap found =
      module.flatMap fun w => w.declaration.onPass w.layout number :=
  flatMap_occurrences hmark (fun w => (hreads w.layout w.declaration).append w.behind) hlead module

/-- Every export is marked. -/
theorem exportMark_bind_eq_none {α : Type} {text : List Char}
    (htext : ¬ "export".toList <+: text) (next : Unit → Scanner α) :
    (exportMark >>= next) text = none := spaced_bind_eq_none htext next

/-- Every default export is marked. -/
theorem defaultMark_bind_eq_none {α : Type} {text : List Char}
    (htext : ¬ "export".toList <+: text) (next : Unit → Scanner α) :
    (defaultMark >>= next) text = none := by
  rw [defaultMark, bind_assoc]
  exact exportMark_bind_eq_none htext _

/-- Mapping what passes a test. -/
theorem map_filter_eq_flatMap {α β : Type} (test : α → Bool) (f : α → β) (items : List α) :
    (items.filter test).map f = items.flatMap fun a => if test a then [f a] else [] := by
  induction items with
  | nil => rfl
  | cons a items ih =>
    rw [List.flatMap_cons, ← ih]
    cases htest : test a with
    | false => simp [htest]
    | true => simp [htest]

/-- Each pass over a module records its own declarations. -/
theorem passes_module (hlead : ∀ c ∈ lead, isBlank c = true) (module : List Written) :
    passes.map (fun pass => pass (lead ++ module.flatMap Written.text)) =
      (List.range passes.length).map fun number =>
        module.flatMap fun w => w.declaration.onPass w.layout number := by
  have hlists : ∀ text, ¬ "export".toList <+: text → listForm text = none := by
    intro text htext
    rw [listForm, Scanner.bind_apply, Scanner.exactly_eq_none htext]
    rfl
  simp only [passes, List.map_cons, List.map_nil, List.length_cons, List.length_nil,
    List.range_succ_eq_map, List.range_zero, List.cons.injEq]
  refine ⟨?_, ?_, ?_, ?_, ?_, ?_, ?_, ?_, ?_, ?_, ?_, trivial⟩
  · rw [defaultFunctions, List.map_eq_flatMap]
    exact occurrences_module (fun _ h => defaultMark_bind_eq_none h _)
      (fun _ => reads_defaultFunctions) hlead module
  · rw [defaultNamelessFunctions, List.map_eq_flatMap]
    exact occurrences_module (fun _ h => defaultMark_bind_eq_none h _)
      (fun _ => reads_defaultNamelessFunctions) hlead module
  · rw [functions, map_filter_eq_flatMap]
    exact occurrences_module (fun _ h => exportMark_bind_eq_none h _)
      (fun _ => reads_functions) hlead module
  · rw [defaultClasses, List.map_eq_flatMap]
    exact occurrences_module (fun _ h => defaultMark_bind_eq_none h _)
      (fun _ => reads_defaultClasses) hlead module
  · rw [classes, map_filter_eq_flatMap]
    exact occurrences_module (fun _ h => exportMark_bind_eq_none h _)
      (fun _ => reads_classes) hlead module
  · rw [bindings, List.map_eq_flatMap]
    exact occurrences_module (fun _ h => exportMark_bind_eq_none h _)
      (fun _ => reads_bindings) hlead module
  · rw [interfaces, List.map_eq_flatMap]
    exact occurrences_module (fun _ h => exportMark_bind_eq_none h _)
      (fun _ => reads_interfaces) hlead module
  · rw [types, map_filter_eq_flatMap]
    exact occurrences_module (fun _ h => exportMark_bind_eq_none h _)
      (fun _ => reads_types) hlead module
  · rw [enums, List.map_eq_flatMap]
    exact occurrences_module (fun _ h => exportMark_bind_eq_none h _)
      (fun _ => reads_enums) hlead module
  · exact occurrences_module hlists (fun _ d => reads_listed d) hlead module
  · rw [defaultNames, List.map_eq_flatMap]
    exact occurrences_module (fun _ h => defaultMark_bind_eq_none h _)
      (fun _ => reads_defaultNames) hlead module

end Passes

section Module

variable {lead : List Char} {module : List Written}

/-- The symbol that is recorded for a declaration of a module. -/
def Written.recorded (w : Written) : ExportedSymbol := w.declaration.recorded w.layout

/-- A declaration is recorded under its own key. -/
theorem Written.key_recorded (w : Written) : w.recorded.key = w.declaration.symbol.key := by
  obtain ⟨declaration, layout, behind, hbehind⟩ := w
  cases declaration <;> rfl

/-- A module opens no comment. -/
theorem without_module {mark : List Char} (hmark : mark ∈ marks) (he : 'e' ∉ mark)
    (hlead : ∀ c ∈ lead, isBlank c = true) (module : List Written) :
    Without mark (lead ++ module.flatMap Written.text) := by
  rw [without_append_of_blank hmark hlead]
  induction module with
  | nil => exact free_nil mark hmark
  | cons w module ih =>
    obtain ⟨front, c, htext, hc, hfree⟩ := w.exists_text_eq
    have hsplit : (w :: module).flatMap Written.text =
        [] ++ 'e' :: (front ++ c :: module.flatMap Written.text) := by
      rw [List.flatMap_cons, htext]
      simp
    rw [hsplit, without_append_cons he, without_append_cons (not_mem_of_isSeparator hc mark hmark)]
    exact ⟨free_nil mark hmark, hfree mark hmark, ih⟩

/-- What all passes record of a module, in their order. -/
def recordedByPass (module : List Written) : List ExportedSymbol :=
  (List.range passes.length).flatMap fun number =>
    (module.filter (·.declaration.passNumber = number)).map Written.recorded

/-- Where the declared keys differ, so do the recorded ones. -/
theorem nodup_recordedByPass
    (hkeys : (module.map (·.declaration.symbol.key)).Nodup) :
    ((recordedByPass module).map ExportedSymbol.key).Nodup := by
  have hrecorded (number : ℕ) :
      ((module.filter (·.declaration.passNumber = number)).map Written.recorded).map
          ExportedSymbol.key =
        (module.filter (·.declaration.passNumber = number)).map (·.declaration.symbol.key) := by
    rw [List.map_map]
    exact List.map_congr_left fun w _ => w.key_recorded
  rw [recordedByPass, List.map_flatMap, List.nodup_flatMap]
  simp only [hrecorded]
  constructor
  · intro number _
    exact hkeys.sublist (List.filter_sublist.map _)
  · -- a key in two passes would be the key of one declaration, which only one pass finds
    refine List.nodup_range.imp fun {first second} hne => ?_
    intro key hfirst hsecond
    simp only [List.mem_map, List.mem_filter, decide_eq_true_eq] at hfirst hsecond
    obtain ⟨w, ⟨hw, hpass⟩, hkey⟩ := hfirst
    obtain ⟨other, ⟨hother, hotherPass⟩, hotherKey⟩ := hsecond
    have hsame : w = other :=
      List.inj_on_of_nodup_map hkeys hw hother (hkey.trans hotherKey.symm)
    rw [hsame] at hpass
    exact hne (hpass.symm.trans hotherPass)

/-- The symbols of a module are those that the passes record of its declarations. -/
theorem symbols_eq_recordedByPass (hlead : ∀ c ∈ lead, isBlank c = true)
    (hkeys : (module.map (·.declaration.symbol.key)).Nodup) :
    symbols (moduleText lead module) = recordedByPass module := by
  have hplain : withoutComments (lead ++ module.flatMap Written.text) =
      lead ++ module.flatMap Written.text :=
    withoutComments_eq_self (without_module (by decide) (by decide) hlead module)
      (without_module (by decide) (by decide) hlead module)
  have honPass (number : ℕ) : module.flatMap (fun w => w.declaration.onPass w.layout number) =
      (module.filter (·.declaration.passNumber = number)).map Written.recorded := by
    rw [map_filter_eq_flatMap]
    refine List.flatMap_congr fun w _ => ?_
    simp only [onPass, decide_eq_true_eq]
    rfl
  have hpasses : (passes.flatMap fun pass => pass (lead ++ module.flatMap Written.text)) =
      recordedByPass module := by
    rw [List.flatMap_def, passes_module hlead, ← List.flatMap_def, recordedByPass]
    simp only [honPass]
  rw [symbols, moduleText, String.toList_ofList]
  simp only [hplain, hpasses]
  exact firstByKey_eq_self (nodup_recordedByPass hkeys)

/-- The exports of a module whose parameter lists close no parenthesis within are those that it
declares, pass by pass and in the order of the text within a pass. -/
theorem symbols_declarations (hlead : ∀ c ∈ lead, isBlank c = true)
    (hkeys : (module.map (·.declaration.symbol.key)).Nodup)
    (hflat : ∀ w ∈ module, w.declaration.IsFlat) :
    symbols (moduleText lead module) =
      (List.range passes.length).flatMap fun number =>
        (module.filter (·.declaration.passNumber = number)).map (·.declaration.symbol) := by
  rw [symbols_eq_recordedByPass hlead hkeys, recordedByPass]
  refine List.flatMap_congr fun number _ => List.map_congr_left fun w hw => ?_
  exact (hflat w (List.mem_of_mem_filter hw)).recorded_eq_symbol w.layout

/-- A constant, a class, the default export and a type. -/
def mixedModule : List Written :=
  [.line (.binding .constWord ⟨"sum".toList, by decide, by decide +kernel, by decide⟩
      (some ⟨"Map<A,\tB>".toList, by decide, by decide⟩)
      ⟨"make(1)".toList, by decide, by decide⟩),
    .line (.classType false true ⟨"Shape".toList, by decide, by decide +kernel, by decide⟩
      ⟨" default() \x7b\x7d ".toList, by decide, by decide⟩),
    .line (.function true true ⟨"load".toList, by decide, by decide +kernel, by decide⟩
      ⟨"from: P, to?: Q".toList, by decide, by decide⟩
      (some ⟨"R | (A)".toList, by decide, by decide⟩)
      ⟨" return \x7b a: 1 \x7d ".toList, by decide, by decide⟩),
    .line (.typeAlias ⟨"Pair".toList, by decide, by decide +kernel, by decide⟩
      ⟨"\x7b a: A, b: B \x7d".toList, by decide, by decide⟩)]

/-- The default function comes before the class, and the class before the constant. -/
theorem symbols_declarations_mixed :
    symbols ("\nexport const sum: Map<A,\tB> = make(1);\n" ++
      "export abstract class Shape \x7b default() \x7b\x7d \x7d\n" ++
      "export default async function load(from: P, to?: Q): R | (A) " ++
      "\x7b return \x7b a: 1 \x7d \x7d\nexport type Pair = \x7b a: A, b: B \x7d;\n") =
    [⟨"load", .function, some "(from: P, to?: Q): R | (A)", true⟩,
      ⟨"Shape", .classType, none, false⟩, ⟨"sum", .const, some "Map<A, B>", false⟩,
      ⟨"Pair", .type, none, false⟩] := by
  have hmixed := @symbols_declarations ['\n'] mixedModule (by decide) (by decide) (by decide)
  refine (congrArg symbols ?_).trans (hmixed.trans ?_)
  · decide +kernel
  · decide +kernel

end Module

end ChangeImpact.Export
