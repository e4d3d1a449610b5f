import ChangeImpact.Proofs.DeclarationScan

/-!
# What the passes find

Each pass over a module finds the declarations of its form and no other one. Here this is shown for
a single declaration: the pattern of the pass reads it, with what is recorded for it, or refuses it.
-/

namespace ChangeImpact.Export

open Text Declaration

variable {layout : Layout} {text rest : List Char}

section Functions

/-- A function begins with one of two words. -/
theorem functionWord_eq_none (text : List Char)
    (hwanted : ∀ word ∈ ["async", "function"], ¬ word.toList <+: text) :
    functionWord text = none := by
  rw [functionWord, Scanner.bind_apply, Scanner.attempt,
    spaced_eq_none (hwanted "async" (by decide))]
  exact Scanner.exactly_eq_none (hwanted "function" (by decide))

/-- A named function begins with one of two words. -/
theorem namedFunction_eq_none (text : List Char)
    (hwanted : ∀ word ∈ ["async", "function"], ¬ word.toList <+: text) :
    namedFunction text = none := by
  rw [namedFunction, Scanner.bind_apply, functionWord_eq_none text hwanted]
  rfl

/-- The word `function` is read with `async` before it or without. -/
theorem functionWord_apply (isAsync : Bool) (rest : List Char) :
    functionWord ((if isAsync then ["async"] else []).flatMap (spacedWord layout) ++
      (spacedWord layout "function" ++ rest)) =
        some ((), (layout.word "function").chars ++ rest) := by
  rw [functionWord, Scanner.bind_apply,
    attempt_apply layout isAsync (by decide) (by decide) (by decide), Option.bind_some, spacedWord,
    List.append_assoc]
  exact Scanner.exactly_append "function" _

/-- A function behind its words: the name and the header as it is recorded, and the rest. -/
theorem named_function (isDefault isAsync : Bool) (name : Name) (params : Part [])
    (returns : Option (Part ['\x7b', ';'])) (body : Part []) :
    (function isDefault isAsync name params returns body).named layout =
      (name.chars ++ recordedSignature params.chars (behindParams layout returns)) ++
        ((typeSplit (behindFirst params.chars (behindParams layout returns))).2 ++
          '\x7b' :: (body.chars ++ ['\x7d'])) := by
  have hheader := recordedSignature_append params.chars (behindParams layout returns)
  rw [List.append_assoc, ← List.append_assoc _ _ ('\x7b' :: _), hheader]
  simp [named, Declaration.name, behindName, close]

/-- A function is read up to the end of what is recorded of its header. -/
theorem namedFunction_apply (isDefault isAsync : Bool) (name : Name) (params : Part [])
    (returns : Option (Part ['\x7b', ';'])) (body : Part []) (tail : List Char) :
    namedFunction (((if isAsync then ["async"] else []) ++ ["function"]).flatMap
        (spacedWord layout) ++
      ((function isDefault isAsync name params returns body).named layout ++ tail)) =
      some ((name.chars, recordedSignature params.chars (behindParams layout returns)),
        (typeSplit (behindFirst params.chars (behindParams layout returns))).2 ++
          '\x7b' :: (body.chars ++ ['\x7d']) ++ tail) := by
  have hnamed : (function isDefault isAsync name params returns body).named layout ++ tail =
      name.chars ++ '(' :: (params.chars ++ ')' ::
        (behindParams layout returns ++ '\x7b' :: (body.chars ++ ['\x7d'] ++ tail))) := by
    simp [named, Declaration.name, behindName, close]
  have hgap (rest : List Char) :
      Scanner.blanks1 ((layout.word "function").chars ++ (name.chars ++ rest)) =
        some ((layout.word "function").chars, name.chars ++ rest) :=
    (layout.word "function").blanks1_apply (startsWord_name name rest).stops_blank
  have hname (rest : List Char) :
      Scanner.name (name.chars ++ '(' :: rest) = some (name.chars, '(' :: rest) :=
    name.scan_apply (by decide) rest
  have hblanks (rest : List Char) : Scanner.blanks ('(' :: rest) = some ([], '(' :: rest) := rfl
  rw [List.flatMap_append, List.flatMap_singleton, List.append_assoc, hnamed]
  simp only [namedFunction, Scanner.bind_apply, functionWord_apply, hgap, hname, hblanks,
    Option.bind_some, signature_apply, Scanner.pure_apply]
  simp

/-- Where no parenthesis is opened there is no signature. -/
theorem signature_eq_none (htext : Stops (· == '(') text) : signature text = none := by
  rw [signature, Scanner.bind_apply, Scanner.exactly_eq_none_of_stops rfl htext]
  rfl

/-- Where a name alone starts like a function, the name goes on or ends there. -/
theorem functionWord_name {name : Name} {tail : List Char}
    (hword : functionWord (name.chars ++ ';' :: tail) = some ((), rest)) :
    ∃ c more, rest = c :: more ∧ (isWord c = true ∨ c = ';') := by
  have hasync : spaced "async" (name.chars ++ ';' :: tail) = none :=
    spaced_name name (by decide) (by decide) tail
  rw [functionWord, Scanner.bind_apply, Scanner.attempt, hasync, Option.bind_some,
    Scanner.exactly_eq_some] at hword
  have hprefix : "function".toList <+: name.chars :=
    prefix_of_prefix_append_cons (by decide) ⟨rest, hword⟩
  obtain ⟨more, hname⟩ := hprefix
  rw [← hname, List.append_assoc, List.append_cancel_left_eq] at hword
  cases more with
  | nil => exact ⟨';', tail, hword, .inr rfl⟩
  | cons c more =>
    refine ⟨c, more ++ ';' :: tail, hword, .inl (name.isWord_of_mem c ?_)⟩
    rw [← hname]
    simp

/-- A name alone is no named function, even if it starts like one. -/
theorem namedFunction_name (name : Name) (tail : List Char) :
    namedFunction (name.chars ++ ';' :: tail) = none := by
  rw [namedFunction, Scanner.bind_apply]
  cases hword : functionWord (name.chars ++ ';' :: tail) with
  | none => rfl
  | some found =>
    obtain ⟨c, more, hrest, hc⟩ := functionWord_name hword
    have hstops : Stops isBlank found.2 := by
      rw [hrest, stops_cons]
      obtain hc | rfl := hc
      · exact isBlank_of_isWord hc
      · decide
    rw [Option.bind_some, Scanner.bind_apply, Scanner.blanks1, Scanner.run1_eq_none hstops]
    rfl

/-- A name alone is no function without a name either. -/
theorem namelessFunction_name (name : Name) (tail : List Char) :
    (functionWord >>= fun _ => Scanner.blanks >>= fun _ => signature)
      (name.chars ++ ';' :: tail) = none := by
  rw [Scanner.bind_apply]
  cases hword : functionWord (name.chars ++ ';' :: tail) with
  | none => rfl
  | some found =>
    obtain ⟨c, more, hrest, hc⟩ := functionWord_name hword
    have hblank : isBlank c = false ∧ c ≠ '(' := by
      obtain hc | rfl := hc
      · refine ⟨isBlank_of_isWord hc, ?_⟩
        rintro rfl
        exact absurd hc (by decide +kernel)
      · decide
    have hblanks : Scanner.blanks (c :: more) = some ([], c :: more) := by
      simp [Scanner.blanks, Scanner.run, hblank.1]
    have hsignature : signature (c :: more) = none :=
      signature_eq_none (stops_cons.mpr (by simp [hblank.2]))
    rw [Option.bind_some, hrest, Scanner.bind_apply, hblanks, Option.bind_some, hsignature]

/-- A function with a name is none without. -/
theorem namelessFunction_named (isAsync : Bool) (d : Declaration) (tail : List Char) :
    (functionWord >>= fun _ => Scanner.blanks >>= fun _ => signature)
      (((if isAsync then ["async"] else []) ++ ["function"]).flatMap (spacedWord layout) ++
        (d.named layout ++ tail)) = none := by
  have hnamed : StartsWord (d.named layout ++ tail) :=
    startsWord_words layout d (List.nil_subset keywords) tail
  have hblanks := (layout.word "function").blanks_apply hnamed.stops_blank
  have hsignature : signature (d.named layout ++ tail) = none :=
    signature_eq_none (hnamed.stops_eq (isWord_of_isSeparator (by decide)))
  rw [List.flatMap_append, List.flatMap_singleton, List.append_assoc, Scanner.bind_apply,
    functionWord_apply, Option.bind_some, Scanner.bind_apply, hblanks, Option.bind_some, hsignature]

end Functions

section Classes

/-- A class begins with one of two words. -/
theorem classWord_eq_none (text : List Char)
    (hwanted : ∀ word ∈ ["abstract", "class"], ¬ word.toList <+: text) :
    classWord text = none := by
  rw [classWord, Scanner.bind_apply, Scanner.attempt,
    spaced_eq_none (hwanted "abstract" (by decide))]
  exact spaced_bind_eq_none (hwanted "class" (by decide)) _

/-- A class is read up to its name. -/
theorem classWord_apply (isAbstract : Bool) (d : Declaration) (tail : List Char) :
    classWord (((if isAbstract then ["abstract"] else []) ++ ["class"]).flatMap
        (spacedWord layout) ++ (d.named layout ++ tail)) =
      some (d.name.chars, d.behindName layout ++ [d.close] ++ tail) := by
  have hclass : spaced "class" (spacedWord layout "class" ++ (d.named layout ++ tail)) =
      some ((), d.named layout ++ tail) :=
    spaced_apply layout "class" (startsWord_words layout d (List.nil_subset keywords) tail)
  rw [List.flatMap_append, List.flatMap_singleton, List.append_assoc, classWord,
    Scanner.bind_apply, attempt_apply layout isAbstract (by decide) (by decide) (by decide),
    Option.bind_some, Scanner.bind_apply, hclass, Option.bind_some, name_apply]

/-- A name alone is no class, even if it starts like one. -/
theorem classWord_name (name : Name) (tail : List Char) :
    classWord (name.chars ++ ';' :: tail) = none := by
  have habstract : spaced "abstract" (name.chars ++ ';' :: tail) = none :=
    spaced_name name (by decide) (by decide) tail
  have hclass : spaced "class" (name.chars ++ ';' :: tail) = none :=
    spaced_name name (by decide) (by decide) tail
  rw [classWord, Scanner.bind_apply, Scanner.attempt, habstract, Option.bind_some,
    Scanner.bind_apply, hclass]
  rfl

end Classes

section Bindings

/-- A declared type is read up to the equals sign or the semicolon that ends it. -/
theorem declaredType_append {type : List Char} {last : Char} (hne : type ≠ [])
    (htype : ∀ c ∈ type, (c != '=' && c != ';') = true) (hlast : last = '=' ∨ last = ';')
    (rest : List Char) : declaredType (':' :: (type ++ last :: rest)) = some (type, rest) := by
  have hcolon (text : List Char) : Scanner.exactly ":" (':' :: text) = some ((), text) :=
    Scanner.exactly_append ":" text
  have hstops : Stops (fun c => c != '=' && c != ';') (last :: rest) := by
    obtain rfl | rfl := hlast <;> exact stops_cons.mpr (by decide)
  have hrun : Scanner.run1 (fun c => c != '=' && c != ';') (type ++ last :: rest) =
      some (type, last :: rest) := Scanner.run1_append hne htype hstops
  have hend : Scanner.oneOf ["=", ";"] (last :: rest) = some (String.singleton last, rest) := by
    obtain rfl | rfl := hlast <;> rfl
  rw [declaredType, Scanner.bind_apply, hcolon, Option.bind_some, Scanner.bind_apply, hrun,
    Option.bind_some, Scanner.bind_apply, hend]
  rfl

/-- The type of a declaration is read up to the equals sign. -/
theorem declaredType_apply (type : Part ['=', ';']) (rest : List Char) :
    declaredType
        (':' :: (layout.colon.chars ++ (type.chars ++ (layout.head.chars ++ '=' :: rest)))) =
      some (layout.colon.chars ++ (type.chars ++ layout.head.chars), rest) := by
  have hgap (gap : Gap) : ∀ c ∈ gap.chars, (c != '=' && c != ';') = true :=
    fun c hc => bne_of_isBlank (by decide) (by decide) (gap.isBlank_of_mem c hc)
  have hread : ∀ c ∈ layout.colon.chars ++ (type.chars ++ layout.head.chars),
      (c != '=' && c != ';') = true := by
    simp only [List.forall_mem_append]
    exact ⟨hgap _, type.bne_of_mem, hgap _⟩
  have hne : layout.colon.chars ++ (type.chars ++ layout.head.chars) ≠ [] := by
    simp [layout.colon.chars_ne_nil]
  have hwhole := declaredType_append hne hread (.inl rfl) rest
  rwa [List.append_assoc, List.append_assoc] at hwhole

/-- The kind of a variable is that of its word. -/
theorem kind_bindingWord (word : BindingWord) :
    (if word.text = "const" then SymbolKind.const else .variable) = word.kind := by
  cases word <;> decide

/-- The form of a variable behind `export`. -/
def bindingForm : Scanner (String × List Char × Option (List Char)) := do
  let keyword ← Scanner.oneOf ["const", "let", "var"]
  let _ ← Scanner.blanks1
  let name ← Scanner.name
  let _ ← Scanner.blanks
  let type ← fun text =>
    match declaredType text with
    | some (type, rest) => some (some type, rest)
    | none => (untyped text).map fun ((), rest) => (none, rest)
  return (keyword, name, type)

/-- The word of a variable is read where it stands. -/
theorem oneOf_bindingWord (word : BindingWord) (rest : List Char) :
    Scanner.oneOf ["const", "let", "var"] (word.text.toList ++ rest) = some (word.text, rest) := by
  cases word <;> rfl

/-- A variable is read up to its equals sign. -/
theorem bindingForm_apply (word : BindingWord) (name : Name) (type : Option (Part ['=', ';']))
    (value : Part []) (tail : List Char) :
    bindingForm ([word.text].flatMap (spacedWord layout) ++
      ((binding word name type value).named layout ++ tail)) =
      some ((word.text, name.chars,
        type.map fun type => layout.colon.chars ++ (type.chars ++ layout.head.chars)),
          layout.equals.chars ++ value.chars ++ [';'] ++ tail) := by
  have hnamed : StartsWord ((binding word name type value).named layout ++ tail) :=
    startsWord_words layout _ (List.nil_subset keywords) tail
  have hgap := (layout.word word.text).blanks1_apply hnamed.stops_blank
  rw [List.flatMap_singleton, spacedWord, List.append_assoc]
  simp only [bindingForm, Scanner.bind_apply, oneOf_bindingWord, hgap, name_apply,
    Option.bind_some]
  cases type with
  | none =>
    have hblanks (rest : List Char) : Scanner.blanks (layout.head.chars ++ '=' :: rest) =
        some (layout.head.chars, '=' :: rest) :=
      layout.head.blanks_apply (stops_cons.mpr (by decide))
    have hbehind : (binding word name none value).behindName layout ++ [';'] ++ tail =
        layout.head.chars ++ '=' :: (layout.equals.chars ++ value.chars ++ [';'] ++ tail) := by
      simp [behindName, colonType]
    rw [close, hbehind, hblanks]
    rfl
  | some type =>
    have hbehind : (binding word name (some type) value).behindName layout ++ [';'] ++ tail =
        ':' :: (layout.colon.chars ++ (type.chars ++ (layout.head.chars ++
          '=' :: (layout.equals.chars ++ value.chars ++ [';'] ++ tail)))) := by
      simp [behindName, colonType]
    have hblanks (rest : List Char) : Scanner.blanks (':' :: rest) = some ([], ':' :: rest) := rfl
    rw [close, hbehind, hblanks, Option.bind_some, declaredType_apply]
    rfl

end Bindings

section Passes

variable (d : Declaration)

/-- A pattern for default exports goes on behind `default`. -/
theorem default_apply {words : List String} (hd : d.words = "default" :: words)
    (tail : List Char) :
    spaced "default" (d.words.flatMap (spacedWord layout) ++ (d.named layout ++ tail)) =
      some ((), words.flatMap (spacedWord layout) ++ (d.named layout ++ tail)) := by
  have hwords : words ⊆ keywords := fun word hword =>
    d.words_subset (by rw [hd]; exact List.mem_cons_of_mem _ hword)
  rw [hd, List.flatMap_cons, List.append_assoc]
  exact spaced_apply layout "default" (startsWord_words layout d hwords tail)

/-- A pattern finds a default export if it reads what stands behind `default`. -/
theorem reads_found_behind_default {α : Type} {next : Scanner α}
    {found : Occurrence α → List ExportedSymbol} {words : List String} {value : α}
    {read rest : List Char} {symbols : List ExportedSymbol} (hd : d.words = "default" :: words)
    (hnamed : d.named layout = read ++ rest)
    (hnext : ∀ tail, next (words.flatMap (spacedWord layout) ++ (d.named layout ++ tail)) =
      some (value, rest ++ tail))
    (hfound : ∀ before tail, Fresh before → found ⟨before, value, rest ++ tail⟩ = symbols) :
    Reads (exportMark >>= fun _ => spaced "default" >>= fun _ => next) found (d.text layout)
      symbols := by
  refine reads_found hnamed (fun tail => ?_) hfound
  rw [Scanner.bind_apply, default_apply d hd, Option.bind_some]
  exact hnext tail

/-- A pattern refuses a default export if it refuses what stands behind `default`. -/
theorem reads_refused_behind_default {α : Type} {next : Scanner α}
    {found : Occurrence α → List ExportedSymbol} {words : List String}
    (hd : d.words = "default" :: words)
    (hnext : ∀ tail, next (words.flatMap (spacedWord layout) ++ (d.named layout ++ tail)) = none) :
    Reads (exportMark >>= fun _ => spaced "default" >>= fun _ => next) found
      (d.text layout) [] := by
  refine .refused fun tail => ?_
  rw [Scanner.bind_apply, exportMark_text, Option.bind_some, Scanner.bind_apply,
    default_apply d hd, Option.bind_some]
  exact hnext tail

/-- A pattern refuses a default export if it wants other words behind `default`. -/
theorem reads_refused_at_word {α : Type} {next : Scanner α}
    {found : Occurrence α → List ExportedSymbol} {wanted words : List String} {other : String}
    (hd : d.words = "default" :: other :: words) (hwanted : wanted ⊆ keywords)
    (hnext : ∀ text, (∀ word ∈ wanted, ¬ word.toList <+: text) → next text = none)
    (hother : other ∉ wanted) :
    Reads (exportMark >>= fun _ => spaced "default" >>= fun _ => next) found
      (d.text layout) [] := by
  have hkeyword : other ∈ keywords := by
    apply d.words_subset
    simp [hd]
  refine reads_refused_behind_default d hd fun tail => hnext _ fun word hword => ?_
  rw [List.flatMap_cons, spacedWord, List.append_assoc, List.append_assoc]
  refine not_prefix_of_keyword (hwanted hword) hkeyword ?_ _
  rintro rfl
  exact hother hword

/-- A name that is exported alone has the semicolon behind it. -/
theorem named_defaultName (name : Name) (hname : String.ofList name.chars ∉ declarationWords)
    (tail : List Char) : ([] : List String).flatMap (spacedWord layout) ++
      ((Declaration.defaultName name hname).named layout ++ tail) = name.chars ++ ';' :: tail := by
  simp [named, Declaration.name, behindName, close]

/-- The first pass finds the functions that are the default export. -/
theorem reads_defaultFunctions :
    Reads (defaultMark >>= fun _ => namedFunction)
      (fun o => [Export.symbol o.value.1 .function (some o.value.2) true])
      (d.text layout) (d.onPass layout 0) := by
  rw [defaultMark, bind_assoc]
  cases d with
  | function isDefault isAsync name params returns body =>
    cases isDefault with
    | false => exact reads_refused_of_not_default rfl
    | true =>
      exact reads_found_behind_default _ rfl
        (named_function true isAsync name params returns body)
        (namedFunction_apply true isAsync name params returns body) fun _ _ _ => rfl
  | classType isDefault isAbstract name body =>
    cases isDefault with
    | false => exact reads_refused_of_not_default rfl
    | true =>
      cases isAbstract with
      | false => exact reads_refused_at_word _ rfl (by decide) namedFunction_eq_none (by decide)
      | true => exact reads_refused_at_word _ rfl (by decide) namedFunction_eq_none (by decide)
  | binding | interface | typeAlias | enum => exact reads_refused_of_not_default rfl
  | defaultName name hname =>
    refine reads_refused_behind_default _ rfl fun tail => ?_
    rw [named_defaultName]
    exact namedFunction_name name tail

/-- The second pass finds nothing, as all functions have names. -/
theorem reads_defaultNamelessFunctions :
    Reads (defaultMark >>= fun _ => functionWord >>= fun _ => Scanner.blanks >>= fun _ => signature)
      (fun o => [Export.symbol "default".toList .function (some o.value) true])
      (d.text layout) (d.onPass layout 1) := by
  rw [defaultMark, bind_assoc]
  cases d with
  | function isDefault isAsync name params returns body =>
    cases isDefault with
    | false => exact reads_refused_of_not_default rfl
    | true => exact reads_refused_behind_default _ rfl (namelessFunction_named isAsync _)
  | classType isDefault isAbstract name body =>
    have hnext (text : List Char)
        (hwanted : ∀ word ∈ ["async", "function"], ¬ word.toList <+: text) :
        (functionWord >>= fun _ => Scanner.blanks >>= fun _ => signature) text = none := by
      rw [Scanner.bind_apply, functionWord_eq_none text hwanted]
      rfl
    cases isDefault with
    | false => exact reads_refused_of_not_default rfl
    | true =>
      cases isAbstract with
      | false => exact reads_refused_at_word _ rfl (by decide) hnext (by decide)
      | true => exact reads_refused_at_word _ rfl (by decide) hnext (by decide)
  | binding | interface | typeAlias | enum => exact reads_refused_of_not_default rfl
  | defaultName name hname =>
    refine reads_refused_behind_default _ rfl fun tail => ?_
    rw [named_defaultName]
    exact namelessFunction_name name tail

/-- The third pass finds the other functions. -/
theorem reads_functions :
    Reads (exportMark >>= fun _ => namedFunction)
      (fun o => if !followsDefault o.before then
        [Export.symbol o.value.1 .function (some o.value.2) false] else [])
      (d.text layout) (d.onPass layout 2) := by
  refine reads_onPass (by decide) namedFunction_eq_none fun hpass => ?_
  cases d with
  | function isDefault isAsync name params returns body =>
    cases isDefault with
    | false =>
      refine reads_found (named_function false isAsync name params returns body)
        (namedFunction_apply false isAsync name params returns body) fun before tail hfresh => ?_
      rw [followsDefault_of_fresh hfresh]
      rfl
    | true => cases hpass
  | classType isDefault => cases isDefault <;> cases hpass
  | binding | interface | typeAlias | enum | defaultName => cases hpass

/-- The fourth pass finds the classes that are the default export. -/
theorem reads_defaultClasses :
    Reads (defaultMark >>= fun _ => classWord)
      (fun o => [Export.symbol o.value .classType none true])
      (d.text layout) (d.onPass layout 3) := by
  rw [defaultMark, bind_assoc]
  cases d with
  | function isDefault isAsync name params returns body =>
    cases isDefault with
    | false => exact reads_refused_of_not_default rfl
    | true =>
      cases isAsync with
      | false => exact reads_refused_at_word _ rfl (by decide) classWord_eq_none (by decide)
      | true => exact reads_refused_at_word _ rfl (by decide) classWord_eq_none (by decide)
  | classType isDefault isAbstract name body =>
    cases isDefault with
    | false => exact reads_refused_of_not_default rfl
    | true =>
      exact reads_found_behind_default _ rfl rfl (classWord_apply isAbstract _) fun _ _ _ => rfl
  | binding | interface | typeAlias | enum => exact reads_refused_of_not_default rfl
  | defaultName name hname =>
    refine reads_refused_behind_default _ rfl fun tail => ?_
    rw [named_defaultName]
    exact classWord_name name tail

/-- The fifth pass finds the other classes. -/
theorem reads_classes :
    Reads (exportMark >>= fun _ => classWord)
      (fun o => if !followsDefault o.before then
        [Export.symbol o.value .classType none false] else [])
      (d.text layout) (d.onPass layout 4) := by
  refine reads_onPass (by decide) classWord_eq_none fun hpass => ?_
  cases d with
  | function isDefault => cases isDefault <;> cases hpass
  | classType isDefault isAbstract name body =>
    cases isDefault with
    | false =>
      refine reads_found rfl (classWord_apply isAbstract _) fun before tail hfresh => ?_
      rw [followsDefault_of_fresh hfresh]
      rfl
    | true => cases hpass
  | binding | interface | typeAlias | enum | defaultName => cases hpass

/-- The sixth pass finds the constants and the variables. -/
theorem reads_bindings :
    Reads variableForm
      (fun o => [Export.symbol o.value.2.1
        (if o.value.1 = "const" then .const else .variable) o.value.2.2 false])
      (d.text layout) (d.onPass layout 5) := by
  have hnext (text : List Char)
      (hwanted : ∀ word ∈ ["const", "let", "var"], ¬ word.toList <+: text) :
      bindingForm text = none := by
    rw [bindingForm, Scanner.bind_apply, Scanner.oneOf_eq_none hwanted]
    rfl
  refine reads_onPass (by decide) hnext fun hpass => ?_
  cases d with
  | function isDefault => cases isDefault <;> cases hpass
  | classType isDefault => cases isDefault <;> cases hpass
  | binding word name type value =>
    have hnamed : (binding word name type value).named layout =
        (name.chars ++ (colonType layout type ++ (layout.head.chars ++ ['=']))) ++
          (layout.equals.chars ++ value.chars ++ [';']) := by
      simp [named, Declaration.name, behindName, close]
    refine reads_found hnamed (bindingForm_apply word name type value) fun before tail hfresh => ?_
    simp only [kind_bindingWord, recorded, Declaration.symbol, Export.symbol, Option.map_map]
    cases type with
    | none => rfl
    | some type =>
      simp only [Option.map_some, Function.comp_apply, collapse_append_blanks
        layout.colon.isBlank_of_mem layout.head.isBlank_of_mem]
  | interface | typeAlias | enum | defaultName => cases hpass

/-- What a keyword has behind it is read as a name. -/
theorem keyword_apply {keyword : String} (hd : d.words = [keyword]) (tail : List Char) :
    (spaced keyword >>= fun _ => Scanner.name)
      (d.words.flatMap (spacedWord layout) ++ (d.named layout ++ tail)) =
        some (d.name.chars, d.behindName layout ++ [d.close] ++ tail) := by
  have hspaced := spaced_apply layout keyword
    (startsWord_words layout d (List.nil_subset keywords) tail)
  rw [List.flatMap_nil, List.nil_append] at hspaced
  rw [hd, List.flatMap_singleton, Scanner.bind_apply, hspaced, Option.bind_some, name_apply]

/-- The seventh pass finds the interfaces. -/
theorem reads_interfaces :
    Reads (keywordForm "interface") (fun o => [Export.symbol o.value .interface none false])
      (d.text layout) (d.onPass layout 6) := by
  refine reads_onPass (by decide)
    (fun _ hwanted => spaced_bind_eq_none (hwanted "interface" (by decide)) _) fun hpass => ?_
  cases d with
  | function isDefault => cases isDefault <;> cases hpass
  | classType isDefault => cases isDefault <;> cases hpass
  | interface name body => exact reads_found rfl (keyword_apply _ rfl) fun _ _ _ => rfl
  | binding | typeAlias | enum | defaultName => cases hpass

/-- The eighth pass finds the types. -/
theorem reads_types :
    Reads (keywordForm "type")
      (fun o => if (trimLeft o.after).head? != some '\x7b' then
        [Export.symbol o.value .type none false] else [])
      (d.text layout) (d.onPass layout 7) := by
  refine reads_onPass (by decide)
    (fun _ hwanted => spaced_bind_eq_none (hwanted "type" (by decide)) _) fun hpass => ?_
  cases d with
  | function isDefault => cases isDefault <;> cases hpass
  | classType isDefault => cases isDefault <;> cases hpass
  | typeAlias name value =>
    refine reads_found rfl (keyword_apply _ rfl) fun before tail hfresh => ?_
    have hbehind : trimLeft ((typeAlias name value).behindName layout ++ [';'] ++ tail) =
        '=' :: (layout.equals.chars ++ value.chars ++ [';'] ++ tail) := by
      rw [trimLeft, behindName, List.append_assoc, List.append_assoc,
        List.dropWhile_append_of_pos layout.head.isBlank_of_mem]
      simp [isBlank]
    simp only [close, hbehind]
    rfl
  | binding | interface | enum | defaultName => cases hpass

/-- The ninth pass finds the enumerations. -/
theorem reads_enums :
    Reads (keywordForm "enum") (fun o => [Export.symbol o.value .enum none false])
      (d.text layout) (d.onPass layout 8) := by
  refine reads_onPass (by decide)
    (fun _ hwanted => spaced_bind_eq_none (hwanted "enum" (by decide)) _) fun hpass => ?_
  cases d with
  | function isDefault => cases isDefault <;> cases hpass
  | classType isDefault => cases isDefault <;> cases hpass
  | enum name body => exact reads_found rfl (keyword_apply _ rfl) fun _ _ _ => rfl
  | binding | interface | typeAlias | defaultName => cases hpass

/-- The word `type` is taken off if it stands behind `export`, and a word or a name is left. -/
theorem attempt_type (layout : Layout) (tail : List Char) : ∃ ofTypes behind,
    Scanner.attempt (Scanner.exactly "type" >>= fun _ => Scanner.blanks >>= fun _ => pure ())
      (d.words.flatMap (spacedWord layout) ++ (d.named layout ++ tail)) = some (ofTypes, behind) ∧
        StartsWord behind := by
  have hwords : d.words.tail ⊆ keywords := fun word hword =>
    d.words_subset (List.mem_of_mem_tail hword)
  have hbehind := startsWord_words layout d hwords tail
  by_cases hlead : d.lead = "type"
  · have hblanks := (layout.word "type").blanks_apply hbehind.stops_blank
    refine ⟨true, _, ?_, hbehind⟩
    rw [d.words_eq, hlead, List.flatMap_cons, spacedWord, List.append_assoc, List.append_assoc,
      Scanner.attempt, Scanner.bind_apply, Scanner.exactly_append, Option.bind_some,
      Scanner.bind_apply, hblanks]
    rfl
  · have htype : ¬ "type".toList <+:
        d.words.flatMap (spacedWord layout) ++ (d.named layout ++ tail) := by
      rw [d.words_eq, List.flatMap_cons, spacedWord, List.append_assoc, List.append_assoc]
      exact not_prefix_of_keyword (by decide) d.lead_mem_keywords (Ne.symm hlead) _
    refine ⟨false, _, ?_, startsWord_words layout d d.words_subset tail⟩
    rw [Scanner.attempt, Scanner.bind_apply, Scanner.exactly_eq_none htype]
    rfl

/-- Lists stand in braces, and no declaration has a brace behind `export` or `type`. -/
theorem listForm_text (tail : List Char) : listForm (d.text layout ++ tail) = none := by
  have hexport : d.text layout ++ tail = "export".toList ++ ((layout.word "export").chars ++
      (d.words.flatMap (spacedWord layout) ++ (d.named layout ++ tail))) := by
    simp [text, spacedWord]
  have hbrace {text : List Char} (htext : StartsWord text) : Scanner.exactly "\x7b" text = none :=
    Scanner.exactly_eq_none_of_stops rfl (htext.stops_eq (isWord_of_isSeparator (by decide)))
  have hstarts := startsWord_words layout d d.words_subset tail
  have hblanks := (layout.word "export").blanks_apply hstarts.stops_blank
  rw [hexport, listForm, Scanner.bind_apply, Scanner.exactly_append, Option.bind_some,
    Scanner.bind_apply, hblanks, Option.bind_some, Scanner.bind_apply]
  obtain ⟨ofTypes, behind, hattempt, hbehind⟩ := attempt_type d layout tail
  rw [hattempt, Option.bind_some, Scanner.bind_apply, hbrace hbehind]
  rfl

/-- The tenth pass finds nothing, as no declaration is a list. -/
theorem reads_listed {found : Occurrence (Bool × List Char) → List ExportedSymbol} :
    Reads listForm found (d.text layout) (d.onPass layout 9) := by
  have hpass : d.passNumber ≠ 9 := by
    cases d with
    | function isDefault => cases isDefault <;> simp [passNumber]
    | classType isDefault => cases isDefault <;> simp [passNumber]
    | binding | interface | typeAlias | enum | defaultName => simp [passNumber]
  rw [onPass, if_neg hpass]
  exact .refused (listForm_text d)

/-- A name behind `default`, unless it opens a declaration. -/
def nameForm : Scanner (List Char) := do
  let name ← Scanner.name
  if declarationWords.contains (String.ofList name) then failure else return name

/-- The words of functions and classes are no names that are exported alone. -/
theorem nameForm_words {word : String} {words : List String} (hword : word ∈ keywords)
    (hopens : word ∈ declarationWords) (rest : List Char) :
    nameForm ((word :: words).flatMap (spacedWord layout) ++ rest) = none := by
  have hcontains : declarationWords.contains (String.ofList word.toList) = true := by
    simpa using hopens
  rw [List.flatMap_cons, List.append_assoc, nameForm, Scanner.bind_apply, name_keyword layout hword,
    Option.bind_some]
  simp only [hcontains, if_true, Scanner.failure_apply]

/-- The last pass finds the names that are exported alone. -/
theorem reads_defaultNames :
    Reads Export.defaultName (fun o => [Export.symbol o.value .variable none true])
      (d.text layout) (d.onPass layout 10) := by
  rw [Export.defaultName, defaultMark, bind_assoc]
  cases d with
  | function isDefault isAsync name params returns body =>
    cases isDefault with
    | false => exact reads_refused_of_not_default rfl
    | true =>
      refine reads_refused_behind_default _ rfl fun tail => ?_
      cases isAsync <;> exact nameForm_words (by decide) (by decide) _
  | classType isDefault isAbstract name body =>
    cases isDefault with
    | false => exact reads_refused_of_not_default rfl
    | true =>
      refine reads_refused_behind_default _ rfl fun tail => ?_
      cases isAbstract <;> exact nameForm_words (by decide) (by decide) _
  | binding | interface | typeAlias | enum => exact reads_refused_of_not_default rfl
  | defaultName name hname =>
    have hnext (tail : List Char) : nameForm (([] : List String).flatMap (spacedWord layout) ++
        ((Declaration.defaultName name hname).named layout ++ tail)) =
          some (name.chars, [';'] ++ tail) := by
      have hread : Scanner.name (name.chars ++ ';' :: tail) = some (name.chars, ';' :: tail) :=
        name.scan_apply (by decide) tail
      have hother : declarationWords.contains (String.ofList name.chars) = false := by
        simpa using hname
      rw [named_defaultName, nameForm, Scanner.bind_apply, hread, Option.bind_some]
      simp only [hother, Bool.false_eq_true, if_false, Scanner.pure_apply]
      rfl
    exact reads_found_behind_default _ rfl rfl hnext fun _ _ _ => rfl

end Passes

end ChangeImpact.Export
