import ChangeImpact.Proofs.Breaking
import ChangeImpact.Proofs.SymbolDiff
import ChangeImpact.Proofs.VariableScan

/-!
# Annotated variables

The type of an exported variable is read up to the first equals sign behind the name, which may be
that of an arrow inside the type. So a type without arrows is recorded as it is declared, and of one
with arrows only what stands before the first of them. A change behind it is not reported.
-/

namespace ChangeImpact

namespace Export

open Text ExportDiff

/-- An exported variable with its type, as it is written. There may be blanks on both sides of the
colon and of the equals sign. -/
structure AnnotatedVariable extends VariableStart where
  behindColon : List Char
  isBlank_of_mem_behindColon : ∀ c ∈ behindColon, isBlank c = true
  type : List Char
  type_ne_nil : type ≠ []
  head_type_ne : type.head? ≠ some '='
  semicolon_not_mem : ';' ∉ type
  behindType : List Char
  isBlank_of_mem_behindType : ∀ c ∈ behindType, isBlank c = true
  value : List Char

namespace AnnotatedVariable

variable (v : AnnotatedVariable)

/-- The text of the declaration. -/
def text : List Char :=
  v.toVariableStart.text ++ ':' :: (v.behindColon ++ (v.type ++ (v.behindType ++
    '=' :: (v.value ++ [';']))))

/-- The symbol that is declared. -/
def declared : ExportedSymbol := Export.symbol v.name v.word.kind (some v.type) false

/-- The type up to its first equals sign. -/
def typeFront : List Char := v.type.takeWhile (· != '=')

/-- The symbol that is recorded. -/
def recorded : ExportedSymbol := Export.symbol v.name v.word.kind (some v.typeFront) false

/-- A part of the type without equals sign is read to its end. -/
theorem bne_of_part {part : List Char} (hsub : ∀ c ∈ part, c ∈ v.type) (hequals : '=' ∉ part) :
    ∀ c ∈ part, (c != '=' && c != ';') = true := by
  intro c hc
  simp only [Bool.and_eq_true, bne_iff_ne]
  constructor
  · rintro rfl
    exact hequals hc
  · rintro rfl
    exact v.semicolon_not_mem (hsub _ hc)

/-- A type with an equals sign is cut at the first one. -/
theorem exists_head_of_mem (hequals : '=' ∈ v.type) :
    ∃ (head : VariableHead) (behind : List Char), v.text = head.text ++ '=' :: behind ∧
      Export.symbol head.name head.word.kind head.type false = v.recorded := by
  obtain ⟨front, c, rest, hfront, hc, htype⟩ :=
    exists_eq_append_cons (p := (· != '=')) ⟨'=', hequals, by decide⟩
  obtain rfl : c = '=' := by simpa using hc
  have hne : front ≠ [] := by
    rintro rfl
    exact v.head_type_ne (by rw [htype]; rfl)
  have htaken : v.typeFront = front := by
    rw [typeFront, htype]
    exact takeWhile_append_of_stops hfront (stops_cons.mpr (by decide))
  have hread : ∀ c ∈ front, (c != '=' && c != ';') = true := by
    refine v.bne_of_part (fun c hc => ?_) fun hmem => absurd (hfront _ hmem) (by decide)
    rw [htype]
    exact List.mem_append_left _ hc
  refine ⟨⟨v.toVariableStart, some (v.behindColon ++ front), by simp [hne], ?_⟩,
    rest ++ (v.behindType ++ '=' :: (v.value ++ [';'])), ?_, ?_⟩
  · simp only [Option.mem_def, Option.some.injEq, forall_eq', List.forall_mem_append]
    exact ⟨bne_of_blanks v.isBlank_of_mem_behindColon, hread⟩
  · simp [text, VariableHead.text, htype]
  · have hcollapse := collapse_append_blanks v.isBlank_of_mem_behindColon
      (List.forall_mem_nil _) front
    rw [List.append_nil] at hcollapse
    simp [recorded, Export.symbol, htaken, hcollapse]

/-- A type without equals sign is read with the blanks behind it. -/
theorem exists_head_of_not_mem (hequals : '=' ∉ v.type) :
    ∃ (head : VariableHead) (behind : List Char), v.text = head.text ++ '=' :: behind ∧
      Export.symbol head.name head.word.kind head.type false = v.recorded := by
  have htaken : v.typeFront = v.type :=
    List.takeWhile_eq_self_iff.mpr (bne_of_not_mem hequals)
  refine ⟨⟨v.toVariableStart, some (v.behindColon ++ (v.type ++ v.behindType)),
    by simp [v.type_ne_nil], ?_⟩, v.value ++ [';'], ?_, ?_⟩
  · simp only [Option.mem_def, Option.some.injEq, forall_eq', List.forall_mem_append]
    exact ⟨bne_of_blanks v.isBlank_of_mem_behindColon, v.bne_of_part (fun c hc => hc) hequals,
      bne_of_blanks v.isBlank_of_mem_behindType⟩
  · simp [text, VariableHead.text]
  · simp [recorded, Export.symbol, htaken, collapse_append_blanks v.isBlank_of_mem_behindColon
      v.isBlank_of_mem_behindType]

/-- The declaration is read up to its first equals sign. -/
theorem exists_head : ∃ (head : VariableHead) (behind : List Char),
    v.text = head.text ++ '=' :: behind ∧
      Export.symbol head.name head.word.kind head.type false = v.recorded :=
  (em ('=' ∈ v.type)).elim v.exists_head_of_mem v.exists_head_of_not_mem

/-- The declared symbol is recorded exactly if the type has no equals sign. -/
theorem recorded_eq_declared_iff : v.recorded = v.declared ↔ '=' ∉ v.type := by
  have hsymbols : v.recorded = v.declared ↔ collapse v.typeFront = collapse v.type := by
    simp [recorded, declared, Export.symbol, String.ofList_inj]
  rw [hsymbols]
  constructor
  · intro hsame hequals
    -- collapsing keeps the equals sign, which the front of the type lacks
    have hkept := congrArg (List.filter (!isBlank ·)) hsame
    rw [filter_collapse, filter_collapse] at hkept
    have hmem : '=' ∈ v.type.filter (!isBlank ·) := List.mem_filter.mpr ⟨hequals, by decide⟩
    rw [← hkept] at hmem
    exact absurd (List.mem_takeWhile_imp (List.mem_of_mem_filter hmem)) (by decide)
  · intro hequals
    rw [typeFront, List.takeWhile_eq_self_iff.mpr (bne_of_not_mem hequals)]

end AnnotatedVariable

/-- A module in which an annotated variable is exported, with no comment in it. The variables to the
left have ended, and no function, no class and no variable to the left has the name. -/
structure AnnotatedModule where
  left : List Char
  annotated : AnnotatedVariable
  right : List Char
  endsVariables : EndsVariables left
  withoutComments_eq : withoutComments (left ++ (annotated.text ++ right)) =
    left ++ (annotated.text ++ right)
  name_ne : ∀ symbol ∈ functions (left ++ (annotated.text ++ right)) ++
    classes (left ++ (annotated.text ++ right)) ++ bindings left,
      symbol.name ≠ String.ofList annotated.name

namespace AnnotatedModule

variable (m : AnnotatedModule)

/-- The characters of the module. -/
def chars : List Char := m.left ++ (m.annotated.text ++ m.right)

/-- The text of the module. -/
def text : String := String.ofList m.chars

/-- The key of the annotated variable. -/
def key : Bool × String := (false, String.ofList m.annotated.name)

/-- The pass over the variables finds those to the left and then the annotated one. -/
theorem bindings_eq :
    ∃ more, bindings m.chars = bindings m.left ++ m.annotated.recorded :: more := by
  obtain ⟨head, behind, htext, hrecorded⟩ := m.annotated.exists_head
  have hchars : m.chars = m.left ++ (head.text ++ '=' :: (behind ++ m.right)) := by
    rw [chars, htext]
    simp
  have hread : variableForm (head.text ++ ['='] ++ (behind ++ m.right)) =
      some (head.value, behind ++ m.right) := by
    rw [List.append_assoc, List.singleton_append]
    exact head.variableForm_append (.inl rfl) (behind ++ m.right)
  have hfound (before : List Char) := @occurrencesFrom_of_eq_some _ _ _ before _ _
    (List.concat_ne_nil '=' head.text) hread
  rw [List.append_assoc, List.singleton_append] at hfound
  have hsymbol : Export.symbol head.name (if head.word.text = "const" then .const else .variable)
      head.type false = m.annotated.recorded := by
    rw [kind_bindingWord, hrecorded]
  rw [bindings, occurrences, hchars, occurrencesFrom_variableForm m.endsVariables, hfound,
    List.map_append, List.map_map, List.map_cons, ← hsymbol]
  exact ⟨_, rfl⟩

/-- The annotated variable is recorded with the front of its type. -/
theorem find?_symbols : find? (symbols m.text) m.key = some m.annotated.recorded := by
  have hdefault {pass : List Char → List ExportedSymbol} {more : List ExportedSymbol}
      (hpass : ∀ symbol ∈ pass m.chars, symbol.isDefault = true) :
      find? (pass m.chars ++ more) m.key = find? more m.key := by
    refine find?_append_of_ne fun symbol hsymbol hkey => ?_
    have hfalse : symbol.isDefault = false := congrArg Prod.fst hkey
    rw [hpass symbol hsymbol] at hfalse
    cases hfalse
  have hnamed {found more : List ExportedSymbol} (hfound : found ⊆ functions m.chars ++
      classes m.chars ++ bindings m.left) : find? (found ++ more) m.key = find? more m.key := by
    refine find?_append_of_ne fun symbol hsymbol hkey => ?_
    exact m.name_ne symbol (hfound hsymbol) (congrArg Prod.snd hkey)
  have hpasses : passes.flatMap (fun pass => pass m.chars) = defaultFunctions m.chars ++
      (defaultNamelessFunctions m.chars ++ (functions m.chars ++ (defaultClasses m.chars ++
        (classes m.chars ++ (bindings m.chars ++
          [interfaces, types, enums, listed, defaultNames].flatMap fun pass => pass m.chars))))) :=
    rfl
  obtain ⟨more, hbindings⟩ := m.bindings_eq
  rw [symbols, text, String.toList_ofList]
  have hplain : withoutComments m.chars = m.chars := m.withoutComments_eq
  simp only [hplain]
  rw [find?_firstByKey, hpasses, hdefault (by simp [defaultFunctions, Export.symbol]),
    hdefault (by simp [defaultNamelessFunctions, Export.symbol]), hnamed (by simp),
    hdefault (by simp [defaultClasses, Export.symbol]), hnamed (by simp), hbindings,
    List.append_assoc, hnamed (by simp)]
  exact List.find?_cons_of_pos
    (by simp [key, ExportedSymbol.key, AnnotatedVariable.recorded, Export.symbol])

end AnnotatedModule

end Export

/-- A symbol counts as modified exactly if another one of its key is found that differs. -/
theorem ExportDiff.mem_modified_iff {base head : List ExportedSymbol}
    {before after : ExportedSymbol} (hbefore : find? base before.key = some before) :
    (before, after) ∈ (ofSymbols base head).modified ↔
      find? head before.key = some after ∧ differs before after = true := by
  rw [mem_modified]
  exact and_iff_right (List.mem_of_find?_eq_some hbefore)

namespace BreakingChange

open Text Export ExportDiff

variable {base head : AnnotatedModule}

/-- Variables of one kind differ as symbols exactly if the fronts of their types differ by more than
blanks. -/
theorem differs_recorded_iff {v w : AnnotatedVariable} (hkind : v.word.kind = w.word.kind) :
    differs v.recorded w.recorded = true ↔ collapse v.typeFront ≠ collapse w.typeFront := by
  simp [differs, AnnotatedVariable.recorded, Export.symbol, ExportedSymbol.plainSignature, hkind]

/-- Of an annotated variable the front of the type is recorded, up to its first equals sign, and
this is the declared type exactly if there is none. Two versions of the variable are reported
exactly if these fronts differ by more than blanks. -/
theorem report_of_annotated (hname : head.annotated.name = base.annotated.name)
    (hkind : base.annotated.word.kind = head.annotated.word.kind) (path : String)
    (consumers : List String) :
    let before := base.annotated.recorded
    let after := head.annotated.recorded
    let changed := collapse base.annotated.typeFront ≠ collapse head.annotated.typeFront
    find? (symbols base.text) (false, String.ofList base.annotated.name) = some before ∧
      (before = base.annotated.declared ↔ '=' ∉ base.annotated.type) ∧
      (∀ other, (before, other) ∈ (ofTexts base.text head.text).modified ↔
        other = after ∧ changed) ∧
      (changed →
        { filePath := path
          kind := .changedSignature
          symbolName := String.ofList base.annotated.name
          before := before.description
          after := some after.description
          severity := .medium
          consumers := consumers } ∈ ofModified path consumers base.text head.text) := by
  intro before after changed
  have hbefore : find? (symbols base.text) before.key = some before := base.find?_symbols
  have hkey : head.key = before.key := by
    rw [AnnotatedModule.key, hname]
    rfl
  have hafter : find? (symbols head.text) before.key = some after := by
    rw [← hkey]
    exact head.find?_symbols
  have hmodified (other : ExportedSymbol) :
      (before, other) ∈ (ofTexts base.text head.text).modified ↔ other = after ∧ changed := by
    rw [ofTexts, mem_modified_iff hbefore, hafter, Option.some.injEq]
    constructor
    · rintro ⟨rfl, hdiffers⟩
      exact ⟨rfl, (differs_recorded_iff hkind).mp hdiffers⟩
    · rintro ⟨rfl, hchanged⟩
      exact ⟨rfl, (differs_recorded_iff hkind).mpr hchanged⟩
  refine ⟨hbefore, base.annotated.recorded_eq_declared_iff, hmodified, fun hchanged => ?_⟩
  have hpair := (hmodified after).mpr ⟨rfl, hchanged⟩
  have haltered := alteration?_of_mem_modified hpair path consumers
  have hkinds : before.kind = after.kind := hkind
  rw [if_pos hkinds] at haltered
  exact List.mem_append_right _ (List.mem_filterMap.mpr ⟨_, hpair, haltered⟩)

/-- A constant with a type. -/
def handler (type : List Char) (hne : type ≠ []) (hhead : type.head? ≠ some '=')
    (hsemicolon : ';' ∉ type) : AnnotatedVariable where
  behindExport := .space
  word := .constWord
  behindWord := .space
  name := "on".toList
  name_ne_nil := by decide
  isWord_of_mem := by decide +kernel
  behindName := []
  isBlank_of_mem := by decide
  behindColon := Gap.space.chars
  isBlank_of_mem_behindColon := Gap.space.isBlank_of_mem
  type := type
  type_ne_nil := hne
  head_type_ne := hhead
  semicolon_not_mem := hsemicolon
  behindType := Gap.space.chars
  isBlank_of_mem_behindType := Gap.space.isBlank_of_mem
  value := " f".toList

/-- A version in which the type calls back with an event. -/
def eventModule : AnnotatedModule where
  left := "export let count: number = 1;\n".toList
  annotated := handler "(e: Event) => void".toList (by decide) (by decide) (by decide)
  right := "\nexport class Handler \x7b\x7d\n".toList
  endsVariables := by decide
  withoutComments_eq := by decide
  name_ne := by decide +kernel

/-- A version in which it calls back with a key. -/
def keyModule : AnnotatedModule where
  left := []
  annotated := handler "(e: Key) => void".toList (by decide) (by decide) (by decide)
  right := []
  endsVariables := by decide
  withoutComments_eq := by decide
  name_ne := by decide +kernel

/-- A type that changes before its first arrow is reported. -/
theorem report_of_annotated_handler :
    let base := "export let count: number = 1;\nexport const on: (e: Event) => void = f;\n" ++
      "export class Handler \x7b\x7d\n"
    let head := "export const on: (e: Key) => void = f;"
    find? (symbols base) (false, "on") = some ⟨"on", .const, some "(e: Event)", false⟩ ∧
      { filePath := "a.ts"
        kind := .changedSignature
        symbolName := "on"
        before := "const on (e: Event)"
        after := some "const on (e: Key)"
        severity := .medium
        consumers := ["b.ts"] } ∈ ofModified "a.ts" ["b.ts"] base head := by
  obtain ⟨hfound, -, -, hreport⟩ :=
    @report_of_annotated eventModule keyModule rfl rfl "a.ts" ["b.ts"]
  have hbase : eventModule.text =
      "export let count: number = 1;\nexport const on: (e: Event) => void = f;\n" ++
        "export class Handler \x7b\x7d\n" := by decide +kernel
  have hhead : keyModule.text = "export const on: (e: Key) => void = f;" := by decide +kernel
  have hbefore : eventModule.annotated.recorded = ⟨"on", .const, some "(e: Event)", false⟩ := by
    decide +kernel
  have hafter : keyModule.annotated.recorded = ⟨"on", .const, some "(e: Key)", false⟩ := by
    decide +kernel
  have hchanged := hreport (by decide +kernel)
  rw [hbase, hbefore] at hfound
  rw [hbase, hhead, hbefore, hafter] at hchanged
  exact ⟨hfound, hchanged⟩

/-- What the arrow of a type leads to changes without a report. -/
theorem report_of_lost_type :
    let base := "export const f: (e: E) => void = g;"
    let head := "export const f: (e: E) => string = g;"
    symbols base = [⟨"f", .const, some "(e: E)", false⟩] ∧ ofModified "a.ts" [] base head = [] := by
  dsimp only [ofModified, ofTexts, symbols]
  rw [String.toList_ofList, String.toList_ofList]
  decide +kernel

end BreakingChange

end ChangeImpact
