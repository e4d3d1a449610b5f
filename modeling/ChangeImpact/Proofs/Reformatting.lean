import ChangeImpact.Export.Diff
import ChangeImpact.Proofs.DeclaredName
import ChangeImpact.Proofs.HeaderChange
import ChangeImpact.Proofs.Squeeze

/-!
# Reformatted modules

Two texts that differ only in the lengths and kinds of their runs of blanks have the same squeezed
form, and the patterns for exports read both as they read that form. Two decisions look closer at
the blanks: whether an export stands behind `default`, and whether an item of a list begins with
`type`. Where these come out the same, so do the exports.
-/

namespace ChangeImpact

namespace Export

open Text

section Forms

/-- The class of all characters but some that are not blank has all blanks. -/
theorem bne_eq_of_isBlank {c : Char} (hc : isBlank c = true) {d : Char} (hd : isBlank d = false) :
    (c != d) = true := by
  rw [bne_iff_ne]
  rintro rfl
  rw [hc] at hd
  cases hd

/-- The word `export` and the blanks behind it are read. -/
theorem squeezes_exportMark : Squeezes exportMark exportMark id :=
  .bind (.exactly (by decide)) fun _ => .bind .blanks1 fun _ => .pure rfl

/-- A word and the blanks behind it are read. -/
theorem squeezes_spaced {word : String} (hword : ∀ c ∈ word.toList, isBlank c = false) :
    Squeezes (spaced word) (spaced word) id :=
  .bind (.exactly hword) fun _ => .bind .blanks1 fun _ => .pure rfl

/-- The mark of a default export is read. -/
theorem squeezes_defaultMark : Squeezes defaultMark defaultMark id :=
  .bind squeezes_exportMark fun _ => squeezes_spaced (by decide)

/-- A run up to one of two characters that are not blank is read. -/
theorem squeezes_run1_bne {first second : Char} (hfirst : isBlank first = false)
    (hsecond : isBlank second = false) :
    Squeezes (Scanner.run1 fun c => c != first && c != second)
      (Scanner.run1 fun c => c != first && c != second) squeeze :=
  .run1 (eq_space_of_isBlank fun _ hc => bne_of_isBlank hfirst hsecond hc)

/-- A return type is read. -/
theorem squeezes_returnType : Squeezes returnType returnType squeeze := by
  refine .bind .blanks fun lead => .bind (.exactly (by decide)) fun _ =>
    .bind (squeezes_run1_bne (by decide) (by decide)) fun type => .pure ?_
  rw [squeeze_append (stops_cons.mpr (by decide)), squeeze_cons (by decide)]

/-- What may be left out is read if it is read where it stands. -/
theorem squeezes_orNothing {scan : Scanner (List Char)} (hscan : Squeezes scan scan squeeze) :
    Squeezes (orNothing scan) (orNothing scan) squeeze where
  apply_squeeze text := by
    simp only [orNothing, hscan.apply_squeeze]
    cases scan text <;> rfl
  suffix text value after hread := by
    rw [orNothing] at hread
    cases hfound : scan text with
    | none =>
      simp only [hfound] at hread
      cases hread
      exact List.suffix_rfl
    | some found =>
      simp only [hfound] at hread
      cases hread
      exact hscan.suffix _ _ _ hfound

/-- A run up to a character that is not blank is read. -/
theorem squeezes_run_bne {last : Char} (hlast : isBlank last = false) :
    Squeezes (Scanner.run (· != last)) (Scanner.run (· != last)) squeeze :=
  .run (eq_space_of_isBlank fun _ hc => bne_eq_of_isBlank hc hlast)

/-- A signature is read. -/
theorem squeezes_signature : Squeezes signature signature squeeze := by
  refine .bind (.exactly (by decide)) fun _ => .bind (squeezes_run_bne (by decide)) fun inside =>
    .bind (.exactly (by decide)) fun _ => .bind (squeezes_orNothing squeezes_returnType)
      fun type => .pure ?_
  rw [List.cons_append, squeeze_cons (by decide), squeeze_append (stops_cons.mpr (by decide)),
    squeeze_cons (by decide), List.cons_append]

/-- The word `function` is read, with or without `async` before it. -/
theorem squeezes_functionWord : Squeezes functionWord functionWord id :=
  .bind (.attempt (squeezes_spaced (by decide))) fun _ => .exactly (by decide)

/-- A function with its name and signature is read. -/
theorem squeezes_namedFunction :
    Squeezes namedFunction namedFunction (Prod.map id squeeze) :=
  .bind squeezes_functionWord fun _ => .bind .blanks1 fun _ => .bind .name fun _ =>
    .bind .blanks fun _ => .bind squeezes_signature fun _ => .pure rfl

/-- The name of a class is read. -/
theorem squeezes_classWord : Squeezes classWord classWord id :=
  .bind (.attempt (squeezes_spaced (by decide))) fun _ =>
    .bind (squeezes_spaced (by decide)) fun _ => .name

/-- The type of a variable is read. -/
theorem squeezes_declaredType : Squeezes declaredType declaredType squeeze :=
  .bind (.exactly (by decide)) fun _ => .bind (squeezes_run1_bne (by decide) (by decide))
    fun type => .bind (.oneOf (by decide)) fun _ => .pure rfl

/-- The end of a declaration without a type is read. -/
theorem squeezes_untyped : Squeezes untyped untyped id :=
  .bind (.oneOf (by decide)) fun _ => .pure rfl

/-- Reads the type of a variable, if there is one, and what ends the declaration. -/
def typeOrEnd : Scanner (Option (List Char)) := fun text =>
  match declaredType text with
  | some (type, rest) => some (some type, rest)
  | none => (untyped text).map fun ((), rest) => (none, rest)

/-- Both ways on behind the name of a variable are read. -/
theorem squeezes_typeOrEnd : Squeezes typeOrEnd typeOrEnd (Option.map squeeze) where
  apply_squeeze text := by
    simp only [typeOrEnd, squeezes_declaredType.apply_squeeze, squeezes_untyped.apply_squeeze]
    cases declaredType text with
    | some found => rfl
    | none => cases untyped text <;> rfl
  suffix text value after hread := by
    rw [typeOrEnd] at hread
    cases hdeclared : declaredType text with
    | some found =>
      simp only [hdeclared] at hread
      cases hread
      exact squeezes_declaredType.suffix _ _ _ hdeclared
    | none =>
      simp only [hdeclared] at hread
      obtain ⟨⟨⟨⟩, rest⟩, huntyped, hsame⟩ := Option.map_eq_some_iff.mp hread
      cases hsame
      exact squeezes_untyped.suffix _ _ _ huntyped

/-- A variable with its keyword and type is read. -/
theorem squeezes_bindingForm : Squeezes bindingForm bindingForm
    (Prod.map id (Prod.map id (Option.map squeeze))) :=
  .bind (.oneOf (by decide)) fun _ => .bind .blanks1 fun _ => .bind .name fun _ =>
    .bind .blanks fun _ => .bind squeezes_typeOrEnd fun _ => .pure rfl

/-- A name behind a keyword is read. -/
theorem squeezes_spaced_name {keyword : String}
    (hkeyword : ∀ c ∈ keyword.toList, isBlank c = false) :
    Squeezes (spaced keyword >>= fun _ => Scanner.name) (spaced keyword >>= fun _ => Scanner.name)
      id := .bind (squeezes_spaced hkeyword) fun _ => .name

/-- Reads an export list behind the word `export`. -/
def listBody : Scanner (Bool × List Char) := do
  let _ ← Scanner.blanks
  let ofTypes ← Scanner.attempt do
    Scanner.exactly "type"
    let _ ← Scanner.blanks
  Scanner.exactly "\x7b"
  let inside ← Scanner.run1 (· != '\x7d')
  Scanner.exactly "\x7d"
  return (ofTypes, inside)

/-- An export list behind the word `export` is read. -/
theorem squeezes_listBody : Squeezes listBody listBody (Prod.map id squeeze) :=
  .bind .blanks fun _ =>
    .bind (.attempt (.bind (.exactly (by decide)) fun _ => .bind .blanks fun _ => .pure rfl))
      fun _ => .bind (.exactly (by decide)) fun _ =>
        .bind (.run1 (eq_space_of_isBlank fun _ hc => bne_eq_of_isBlank hc (by decide))) fun _ =>
          .bind (.exactly (by decide)) fun _ => .pure rfl

/-- An export list is read. -/
theorem squeezes_listForm : Squeezes listForm listForm (Prod.map id squeeze) :=
  .bind (.exactly (by decide)) fun _ => squeezes_listBody

/-- A name that is no word of a declaration is read. -/
theorem squeezes_nameForm : Squeezes nameForm nameForm id := by
  refine .bind .name fun name => ?_
  by_cases hopens : declarationWords.contains (String.ofList name) = true
  · simp only [id, hopens, if_true]
    exact .failure
  · simp only [id, hopens]
    exact .pure rfl

end Forms

section Occurrences

variable {α β : Type} {scan : Scanner α} {change : α → α}

/-- A scanner that reads only texts that start with `export`, at least that word. -/
def OpensExport (scan : Scanner α) : Prop :=
  ∀ text value after, scan text = some (value, after) →
    ∃ read, text = "export".toList ++ (read ++ after)

/-- Such a scanner takes more of the text than nothing. -/
theorem OpensExport.exists_read (hopens : OpensExport scan) (place : List Char) (value : α)
    (after : List Char) (hread : scan place = some (value, after)) :
    ∃ read, read ≠ [] ∧ place = read ++ after := by
  obtain ⟨read, rfl⟩ := hopens _ _ _ hread
  exact ⟨"export".toList ++ read, by simp, by rw [List.append_assoc]⟩

/-- Such a scanner reads nothing at a blank. -/
theorem OpensExport.eq_none_of_isBlank (hopens : OpensExport scan) {c : Char} {rest : List Char}
    (hc : isBlank c = true) : scan (c :: rest) = none := by
  rw [Option.eq_none_iff_forall_not_mem]
  rintro ⟨value, after⟩ hread
  obtain ⟨read, htext⟩ := hopens _ _ _ hread
  have he : c = 'e' := (List.cons.inj htext).1
  rw [he] at hc
  cases hc

/-- The word `export` itself is such a scanner. -/
theorem opensExport_exactly : OpensExport (Scanner.exactly "export") := by
  rintro text ⟨⟩ after hread
  exact ⟨[], (Scanner.exactly_eq_some.mp hread).symm⟩

/-- Such a scanner may be followed by another one. -/
theorem OpensExport.bind (hscan : OpensExport scan) {next squeezedNext : α → Scanner β}
    {changeNext : β → β}
    (hnext : ∀ value, Squeezes (next value) (squeezedNext value) changeNext) :
    OpensExport (scan >>= next) := by
  intro text value after hread
  rw [Scanner.bind_apply, Option.bind_eq_some_iff] at hread
  obtain ⟨⟨first, behind⟩, hfirst, hread⟩ := hread
  obtain ⟨read, rfl⟩ := hscan _ _ _ hfirst
  obtain ⟨more, hbehind⟩ := (hnext first).suffix _ _ _ hread
  have hbehind : more ++ after = behind := hbehind
  exact ⟨read ++ more, by rw [← hbehind, List.append_assoc]⟩

/-- The word `export` with blanks is such a scanner. -/
theorem opensExport_exportMark : OpensExport exportMark := by
  rintro text ⟨⟩ after hread
  obtain ⟨gap, -, -, htext⟩ := spaced_eq_some hread
  exact ⟨gap, htext⟩

/-- The mark of a default export is such a scanner. -/
theorem opensExport_defaultMark : OpensExport defaultMark :=
  opensExport_exportMark.bind fun _ => squeezes_spaced (by decide)

/-- In a squeezed text the same is found as in the text. -/
theorem flatMap_occurrences_squeeze (hscan : Squeezes scan scan change)
    (hopens : OpensExport scan) {f : α → List Char → List β}
    (hfound : ∀ value after, f (change value) (squeeze after) = f value after)
    (text : List Char) :
    (occurrences scan (squeeze text)).flatMap (fun o => f o.value o.after) =
      (occurrences scan text).flatMap fun o => f o.value o.after := by
  suffices h : ∀ before before', (occurrencesFrom scan before' 0 (squeeze text)).flatMap
      (fun o => f o.value o.after) =
        (occurrencesFrom scan before 0 text).flatMap fun o => f o.value o.after from h [] []
  induction text using search_induction hopens.exists_read with
  | nil => exact fun _ _ => rfl
  | refused c rest hread ih =>
    intro before before'
    rw [occurrencesFrom_cons_of_eq_none hread]
    have hsqueezed := hscan.apply_squeeze (c :: rest)
    rw [hread, Option.map_none] at hsqueezed
    cases hc : isBlank c with
    | false =>
      rw [squeeze_cons hc] at hsqueezed ⊢
      rw [occurrencesFrom_cons_of_eq_none hsqueezed]
      exact ih _ _
    | true =>
      -- a further blank of a run is left out, and the first one is a space at which nothing is read
      rw [squeeze, if_pos hc]
      split_ifs
      · exact ih _ _
      · rw [occurrencesFrom_cons_of_eq_none (hopens.eq_none_of_isBlank (by decide))]
        exact ih _ _
  | found read value after hne hread ih =>
    intro before before'
    have hsqueezed := hscan.apply_squeeze (read ++ after)
    rw [hread, Option.map_some] at hsqueezed
    obtain ⟨read', hne', hsplit⟩ := hopens.exists_read _ _ _ hsqueezed
    rw [hsplit] at hsqueezed ⊢
    rw [occurrencesFrom_of_eq_some hne hread, occurrencesFrom_of_eq_some hne' hsqueezed,
      List.flatMap_cons, List.flatMap_cons, hfound, ih]

end Occurrences

section Passes

/-- A symbol does not depend on the blanks in its signature. -/
theorem symbol_squeeze (name : List Char) (kind : SymbolKind) (signature : Option (List Char))
    (isDefault : Bool) :
    symbol name kind (signature.map squeeze) isDefault = symbol name kind signature isDefault := by
  cases signature <;> simp [symbol]

/-- The passes that do not look closer at blanks. -/
def freePasses : List (List Char → List ExportedSymbol) :=
  [defaultFunctions, defaultNamelessFunctions, defaultClasses, bindings, interfaces, types, enums,
    defaultNames]

/-- The other passes are those over functions, classes and export lists. -/
theorem mem_passes_cases {pass : List Char → List ExportedSymbol} (hpass : pass ∈ passes) :
    pass ∈ freePasses ∨ pass = functions ∨ pass = classes ∨ pass = listed := by
  simp only [passes, List.mem_cons, List.not_mem_nil, or_false] at hpass
  simp only [freePasses, List.mem_cons, List.not_mem_nil, or_false]
  tauto

/-- A pass that records what its pattern finds records the same of a squeezed text. -/
theorem map_occurrences_squeeze {α : Type} {scan : Scanner α} {change : α → α}
    (hscan : Squeezes scan scan change) (hopens : OpensExport scan) {f : α → ExportedSymbol}
    (hrecord : ∀ value, f (change value) = f value) (text : List Char) :
    (occurrences scan (squeeze text)).map (fun o => f o.value) =
      (occurrences scan text).map fun o => f o.value := by
  rw [List.map_eq_flatMap, List.map_eq_flatMap]
  exact flatMap_occurrences_squeeze hscan hopens (f := fun value _ => [f value])
    (fun value _ => by rw [hrecord]) text

/-- What a name is followed by begins with the same character in a squeezed text. -/
theorem head?_trimLeft_squeeze (text : List Char) :
    (trimLeft (squeeze text)).head? = (trimLeft text).head? := by
  have hblank := eq_space_of_isBlank fun _ (hc : isBlank _ = true) => hc
  rw [trimLeft, trimLeft, dropWhile_squeeze hblank]
  cases hrest : text.dropWhile isBlank with
  | nil => rfl
  | cons c rest =>
    have hc := List.head?_dropWhile_not isBlank text
    rw [hrest] at hc
    rw [squeeze_cons hc]
    rfl

/-- Exports behind a keyword are recorded alike of a squeezed text. -/
theorem map_keywordForm_squeeze (keyword : String)
    (hkeyword : ∀ c ∈ keyword.toList, isBlank c = false) (kind : SymbolKind) (text : List Char) :
    (occurrences (keywordForm keyword) (squeeze text)).map
        (fun o => symbol o.value kind none false) =
      (occurrences (keywordForm keyword) text).map fun o => symbol o.value kind none false :=
  map_occurrences_squeeze (.bind squeezes_exportMark fun _ => squeezes_spaced_name hkeyword)
    (opensExport_exportMark.bind fun _ => squeezes_spaced_name hkeyword)
    (f := fun value => symbol value kind none false) (fun _ => rfl) text

/-- Most passes find the same in a squeezed text. -/
theorem freePasses_squeeze {pass : List Char → List ExportedSymbol} (hpass : pass ∈ freePasses)
    (text : List Char) : pass (squeeze text) = pass text := by
  have hnameless : Squeezes (functionWord >>= fun _ => Scanner.blanks >>= fun _ => signature)
      (functionWord >>= fun _ => Scanner.blanks >>= fun _ => signature) squeeze :=
    .bind squeezes_functionWord fun _ => .bind .blanks fun _ => squeezes_signature
  simp only [freePasses, List.mem_cons, List.not_mem_nil, or_false] at hpass
  obtain rfl | rfl | rfl | rfl | rfl | rfl | rfl | rfl := hpass
  · exact map_occurrences_squeeze (.bind squeezes_defaultMark fun _ => squeezes_namedFunction)
      (opensExport_defaultMark.bind fun _ => squeezes_namedFunction)
      (f := fun value => symbol value.1 .function (some value.2) true)
      (fun value => symbol_squeeze value.1 .function (some value.2) true) text
  · exact map_occurrences_squeeze (.bind squeezes_defaultMark fun _ => hnameless)
      (opensExport_defaultMark.bind fun _ => hnameless)
      (f := fun value => symbol "default".toList .function (some value) true)
      (fun value => symbol_squeeze "default".toList .function (some value) true) text
  · exact map_occurrences_squeeze (.bind squeezes_defaultMark fun _ => squeezes_classWord)
      (opensExport_defaultMark.bind fun _ => squeezes_classWord)
      (f := fun value => symbol value .classType none true) (fun _ => rfl) text
  · exact map_occurrences_squeeze (.bind squeezes_exportMark fun _ => squeezes_bindingForm)
      (opensExport_exportMark.bind fun _ => squeezes_bindingForm)
      (f := fun value => symbol value.2.1
        (if value.1 = "const" then .const else .variable) value.2.2 false)
      (fun value => symbol_squeeze value.2.1 _ value.2.2 false) text
  · exact map_keywordForm_squeeze "interface" (by decide) .interface text
  · rw [types, types, map_filter_eq_flatMap, map_filter_eq_flatMap]
    have hname : Squeezes (spaced "type" >>= fun _ => Scanner.name)
        (spaced "type" >>= fun _ => Scanner.name) id := squeezes_spaced_name (by decide)
    refine flatMap_occurrences_squeeze (.bind squeezes_exportMark fun _ => hname)
      (opensExport_exportMark.bind fun _ => hname) (f := fun name after =>
        if (trimLeft after).head? != some '\x7b' then [symbol name .type none false] else [])
      (fun name after => ?_) text
    simp only [head?_trimLeft_squeeze, id]
  · exact map_keywordForm_squeeze "enum" (by decide) .enum text
  · exact map_occurrences_squeeze (.bind squeezes_defaultMark fun _ => squeezes_nameForm)
      (opensExport_defaultMark.bind fun _ => squeezes_nameForm)
      (f := fun value => symbol value .variable none true) (fun _ => rfl) text

end Passes

section Items

/-- Whether a text is a single name does not depend on its blanks. -/
theorem isName_squeeze (text : List Char) : isName (squeeze text) = isName text := by
  have hword := eq_space_of_isBlank fun _ hc => isWord_of_isBlank hc
  rw [isName, isName, all_squeeze hword, Bool.eq_iff_iff]
  simp

/-- A single name is squeezed already. -/
theorem squeeze_of_isName {text : List Char} (htext : isName text = true) :
    squeeze text = text := by
  rw [isName, Bool.and_eq_true, List.all_eq_true] at htext
  exact squeeze_eq_self fun c hc => isBlank_of_isWord (htext.2 c hc)

/-- Reads an item that renames. -/
def renameForm : Scanner (List Char × List Char) := do
  let old ← Scanner.name
  let _ ← Scanner.blanks1
  spaced "as"
  return (old, ← Scanner.name)

/-- A name with its new name is read. -/
theorem squeezes_renameForm : Squeezes renameForm renameForm id :=
  .bind .name fun _ => .bind .blanks1 fun _ => .bind (squeezes_spaced (by decide)) fun _ =>
    .bind .name fun _ => .pure rfl

/-- An item renames if nothing is left behind its two names. -/
theorem renamedItem?_eq_some_iff {item : List Char} {names : List Char × List Char} :
    renamedItem? item = some names ↔ renameForm item = some (names, []) := by
  simp only [renamedItem?]
  split
  case h_1 found hfound =>
    have hform : renameForm item = some (found, []) := hfound
    simp [hform]
  case h_2 hother =>
    simp only [reduceCtorEq, false_iff]
    exact hother names

/-- The two names of an item that renames do not depend on its blanks. -/
theorem renamedItem?_squeeze (item : List Char) :
    renamedItem? (squeeze item) = renamedItem? item := by
  refine Option.ext fun names => ?_
  rw [renamedItem?_eq_some_iff, renamedItem?_eq_some_iff, squeezes_renameForm.apply_squeeze]
  simp [Option.map_eq_some_iff, Prod.ext_iff]

/-- The symbol of an item of an export list, once the word `type` is taken off. -/
def namedItem? (ofTypes : Bool) (item : List Char) : Option ExportedSymbol :=
  let (isDefault, name) := match renamedItem? item with
    | some (old, new) => if new = "default".toList then (true, old) else (false, new)
    | none => (false, item)
  if isName name then some (symbol name (if ofTypes then .type else .variable) none isDefault)
  else none

/-- A squeezed item of a list has the names of the item. -/
theorem namedItem?_squeeze (ofTypes : Bool) (item : List Char) :
    namedItem? ofTypes (squeeze item) = namedItem? ofTypes item := by
  rw [namedItem?, namedItem?, renamedItem?_squeeze]
  cases renamedItem? item with
  | some names => rfl
  | none =>
    cases hname : isName item with
    | false => simp [isName_squeeze, hname]
    | true => simp [hname, squeeze_of_isName hname]

/-- An item of an export list may have the word `type` in front. -/
theorem listItem?_eq (ofTypes : Bool) (item : List Char) :
    listItem? ofTypes item = match "type ".toList.isPrefixOf? (trim item) with
      | some rest => namedItem? true (trim rest)
      | none => namedItem? ofTypes (trim item) := by
  rw [listItem?]
  cases "type ".toList.isPrefixOf? (trim item) <;> rfl

/-- Whether an item of an export list is taken to begin with the word `type`. -/
def isTypeItem (item : List Char) : Bool := ("type ".toList.isPrefixOf? (trim item)).isSome

/-- The symbol of an item depends on its blanks only by the word `type` in front. -/
theorem listItem?_congr (ofTypes : Bool) {item other : List Char}
    (hsqueeze : squeeze item = squeeze other) (htype : isTypeItem item = isTypeItem other) :
    listItem? ofTypes item = listItem? ofTypes other := by
  have htrim : squeeze (trim item) = squeeze (trim other) := by
    rw [← trim_squeeze, hsqueeze, trim_squeeze]
  have hnamed (ofTypes : Bool) {left right : List Char} (hsame : squeeze left = squeeze right) :
      namedItem? ofTypes left = namedItem? ofTypes right := by
    rw [← namedItem?_squeeze, hsame, namedItem?_squeeze]
  rw [listItem?_eq, listItem?_eq]
  rw [isTypeItem, isTypeItem] at htype
  cases hitem : "type ".toList.isPrefixOf? (trim item) with
  | none =>
    cases hother : "type ".toList.isPrefixOf? (trim other) with
    | none => exact hnamed ofTypes htrim
    | some rest =>
      rw [hitem, hother] at htype
      cases htype
  | some rest =>
    cases hother : "type ".toList.isPrefixOf? (trim other) with
    | none =>
      rw [hitem, hother] at htype
      cases htype
    | some otherRest =>
      -- the rests behind the word and the space are squeezed alike
      have hword (rest : List Char) : squeeze ("type ".toList ++ rest) =
          "type".toList ++ squeeze (' ' :: rest) := by
        have hsplit : "type ".toList ++ rest = "type".toList ++ ' ' :: rest := rfl
        have hplain : ∀ c ∈ "type".toList, isBlank c = false := by decide
        rw [hsplit, squeeze_append_of_getLast fun c hc => hplain c (List.mem_of_getLast? hc),
          squeeze_eq_self hplain]
      have hspace (rest : List Char) : trim (' ' :: rest) = trim rest := rfl
      rw [List.isPrefixOf?_eq_some_iff_append_eq] at hitem hother
      rw [← hitem, ← hother, hword, hword, List.append_cancel_left_eq] at htrim
      have hrest : squeeze (trim rest) = squeeze (trim otherRest) := by
        rw [← hspace rest, ← hspace otherRest, ← trim_squeeze, htrim, trim_squeeze]
      exact hnamed true hrest

/-- The items of all export lists, with whether their lists are of types. -/
def listItems (text : List Char) : List (Bool × List Char) :=
  (occurrences listForm text).flatMap fun o => (o.value.2.splitOn ',').map (o.value.1, ·)

/-- In a squeezed text the same items stand in lists, but for their blanks. -/
theorem listItems_squeeze (text : List Char) :
    (listItems (squeeze text)).map (Prod.map id squeeze) =
      (listItems text).map (Prod.map id squeeze) := by
  have hform : ∀ _ : Unit, Squeezes listBody listBody (Prod.map id squeeze) :=
    fun _ => squeezes_listBody
  rw [listItems, listItems, List.map_flatMap, List.map_flatMap]
  refine flatMap_occurrences_squeeze squeezes_listForm (opensExport_exactly.bind hform)
    (f := fun value _ => ((value.2.splitOn ',').map (value.1, ·)).map (Prod.map id squeeze))
    (fun value _ => ?_) text
  simp [splitOn_squeeze, isBlank, Function.comp_def]

/-- The exports in lists are those of the items, list by list. -/
theorem listed_eq_flatMap (text : List Char) :
    listed text = (listItems text).flatMap fun item => (listItem? item.1 item.2).toList := by
  rw [listed, listItems, List.flatMap_assoc]
  refine List.flatMap_congr fun o _ => ?_
  rw [List.flatMap_map, List.filterMap_eq_flatMap_toList]

end Items

section Texts

variable {α β γ δ : Type}

/-- What is made of the members of two lists is the same if it is the same for members that look
alike and are marked alike, and the lists look alike and are marked alike. -/
theorem flatMap_eq_of_map_eq {f : α → List β} {look : α → γ} {mark : α → δ}
    (hf : ∀ a b, look a = look b → mark a = mark b → f a = f b) {xs ys : List α}
    (hlook : xs.map look = ys.map look) (hmark : xs.map mark = ys.map mark) :
    xs.flatMap f = ys.flatMap f := by
  induction xs generalizing ys with
  | nil =>
    rw [List.map_nil, eq_comm, List.map_eq_nil_iff] at hlook
    rw [hlook]
  | cons a xs ih =>
    cases ys with
    | nil => cases hlook
    | cons b ys =>
      rw [List.map_cons, List.map_cons, List.cons.injEq] at hlook hmark
      rw [List.flatMap_cons, List.flatMap_cons, hf a b hlook.1 hmark.1, ih hlook.2 hmark.2]

/-- Which exports of functions and which exports of classes are taken to stand behind `default`. -/
def defaultDecisions (text : List Char) : List Bool × List Bool :=
  ((occurrences (do exportMark; namedFunction) text).map fun o => followsDefault o.before,
    (occurrences (do exportMark; classWord) text).map fun o => followsDefault o.before)

/-- Which items of export lists are taken to begin with the word `type`. -/
def typeDecisions (text : List Char) : List Bool :=
  (listItems text).map fun item => isTypeItem item.2

/-- A pass that leaves out what is taken to stand behind `default`. -/
theorem filter_map_occurrences_eq {scan : Scanner α} {change : α → α}
    (hscan : Squeezes scan scan change) (hopens : OpensExport scan) {f : α → ExportedSymbol}
    (hrecord : ∀ value, f (change value) = f value) {base head : List Char}
    (hsqueeze : squeeze base = squeeze head)
    (hdefault : (occurrences scan base).map (fun o => followsDefault o.before) =
      (occurrences scan head).map fun o => followsDefault o.before) :
    ((occurrences scan base).filter fun o => !followsDefault o.before).map (fun o => f o.value) =
      ((occurrences scan head).filter fun o => !followsDefault o.before).map fun o =>
        f o.value := by
  have hrecords : (occurrences scan base).map (fun o => f o.value) =
      (occurrences scan head).map fun o => f o.value := by
    rw [← map_occurrences_squeeze hscan hopens hrecord, hsqueeze,
      map_occurrences_squeeze hscan hopens hrecord]
  rw [map_filter_eq_flatMap, map_filter_eq_flatMap]
  refine flatMap_eq_of_map_eq (fun a b hsymbol hdecision => ?_) hrecords hdefault
  rw [hsymbol, hdecision]

variable {base head : List Char}

/-- Texts that are squeezed alike have the same exports if the same decisions are made. -/
theorem passes_eq_of_squeeze (hsqueeze : squeeze base = squeeze head)
    (hdefault : defaultDecisions base = defaultDecisions head)
    (htype : typeDecisions base = typeDecisions head) :
    ∀ pass ∈ passes, pass base = pass head := by
  have hfree {pass : List Char → List ExportedSymbol} (hpass : pass ∈ freePasses) :
      pass base = pass head := by
    rw [← freePasses_squeeze hpass, hsqueeze, freePasses_squeeze hpass]
  have hfunctions : functions base = functions head :=
    filter_map_occurrences_eq (.bind squeezes_exportMark fun _ => squeezes_namedFunction)
      (opensExport_exportMark.bind fun _ => squeezes_namedFunction)
      (f := fun value => symbol value.1 .function (some value.2) false)
      (fun value => symbol_squeeze value.1 .function (some value.2) false) hsqueeze
      (congrArg Prod.fst hdefault)
  have hclasses : classes base = classes head :=
    filter_map_occurrences_eq (.bind squeezes_exportMark fun _ => squeezes_classWord)
      (opensExport_exportMark.bind fun _ => squeezes_classWord)
      (f := fun value => symbol value .classType none false) (fun _ => rfl) hsqueeze
      (congrArg Prod.snd hdefault)
  have hlisted : listed base = listed head := by
    have hitems : (listItems base).map (Prod.map id squeeze) =
        (listItems head).map (Prod.map id squeeze) := by
      rw [← listItems_squeeze, hsqueeze, listItems_squeeze]
    rw [listed_eq_flatMap, listed_eq_flatMap]
    refine flatMap_eq_of_map_eq (fun a b hsame hdecision => ?_) hitems htype
    obtain ⟨hlist, hitem⟩ := Prod.mk.inj hsame
    have hlist : a.1 = b.1 := hlist
    rw [hlist, listItem?_congr b.1 hitem hdecision]
  intro pass hpass
  obtain hpass | rfl | rfl | rfl := mem_passes_cases hpass
  · exact hfree hpass
  · exact hfunctions
  · exact hclasses
  · exact hlisted

/-- A text without a slash has no comments. -/
theorem withoutComments_of_slash_not_mem {text : List Char} (htext : '/' ∉ text) :
    withoutComments text = text :=
  withoutComments_eq_self (fun h => htext (h.subset (by decide)))
    fun h => htext (h.subset (by decide))

end Texts

end Export

namespace ExportDiff

open Text Export

/-- Reformatting changes no export, as long as the same exports are taken to stand behind `default`
and the same items of lists are taken to begin with the word `type`. -/
theorem ofTexts_of_squeeze {base head : String} (hslash : '/' ∉ base.toList)
    (hsqueeze : squeeze base.toList = squeeze head.toList)
    (hdefault : defaultDecisions base.toList = defaultDecisions head.toList)
    (htype : typeDecisions base.toList = typeDecisions head.toList) :
    symbols base = symbols head ∧ ofTexts base head = {} := by
  have hslashHead : '/' ∉ head.toList := by
    have hblank : isBlank '/' = false := by decide
    rwa [← mem_squeeze hblank, ← hsqueeze, mem_squeeze hblank]
  have hpasses : passes.flatMap (fun pass => pass base.toList) =
      passes.flatMap fun pass => pass head.toList :=
    List.flatMap_congr (passes_eq_of_squeeze hsqueeze hdefault htype)
  have hsymbols : symbols base = symbols head := by
    rw [symbols, symbols]
    simp only [withoutComments_of_slash_not_mem hslash,
      withoutComments_of_slash_not_mem hslashHead, hpasses]
  refine ⟨hsymbols, ?_⟩
  rw [ofTexts, hsymbols]
  exact ofSymbols_self (nodup_firstByKey _)

/-- A module on one line and on several ones. -/
theorem ofTexts_of_squeeze_lines :
    let base := "export default function f(a: A): B \x7b\x7d export \x7b type T, g as h \x7d;"
    let head := "export default\nfunction\tf(a:  A):\nB \x7b\x7d\nexport \x7b\n  type  T,\n  g\nas h \x7d;"
    symbols base = symbols head ∧ ofTexts base head = {} := by
  refine ofTexts_of_squeeze ?_ ?_ ?_ ?_
  · rw [String.toList_ofList]
    decide
  all_goals
    rw [String.toList_ofList, String.toList_ofList]
    decide +kernel

/-- A line break behind the word `type` removes a type, and four blanks behind the word `default`
add a function. -/
theorem ofTexts_of_moved_blanks :
    (squeeze "export \x7b type A \x7d;".toList = squeeze "export \x7b type\nA \x7d;".toList ∧
      ofTexts "export \x7b type A \x7d;" "export \x7b type\nA \x7d;" =
        { removed := [⟨"A", .type, none, false⟩] }) ∧
      squeeze "default export function f() \x7b\x7d".toList =
        squeeze "default    export function f() \x7b\x7d".toList ∧
      ofTexts "default export function f() \x7b\x7d" "default    export function f() \x7b\x7d" =
        { added := [⟨"f", .function, some "()", false⟩] } := by
  unfold ofTexts symbols
  rw [String.toList_ofList, String.toList_ofList, String.toList_ofList, String.toList_ofList]
  decide +kernel

end ExportDiff

end ChangeImpact
