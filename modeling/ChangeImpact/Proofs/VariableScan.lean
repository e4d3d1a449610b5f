import ChangeImpact.Proofs.DeclarationPasses

/-!
# Finding variables in a text

An exported variable is read up to the first equals sign or semicolon behind `export`. Where one of
the two stands behind every `export` of a text, what is found in the text does not depend on what
follows it, and the search goes on at its end.
-/

namespace ChangeImpact.Export

open Text

/-- A word with a gap behind it. -/
def Gap.behind (gap : Gap) (word : String) : List Char := word.toList ++ gap.chars

/-- An exported variable up to the blanks behind its name. -/
structure VariableStart where
  behindExport : Gap
  word : BindingWord
  behindWord : Gap
  name : List Char
  name_ne_nil : name ≠ []
  isWord_of_mem : ∀ c ∈ name, isWord c = true
  behindName : List Char
  isBlank_of_mem : ∀ c ∈ behindName, isBlank c = true

/-- The text of the beginning. -/
def VariableStart.text (start : VariableStart) : List Char :=
  start.behindExport.behind "export" ++ (start.behindWord.behind start.word.text ++
    (start.name ++ start.behindName))

/-- What is read of an exported variable, but for the equals sign or the semicolon that ends it. -/
structure VariableHead extends VariableStart where
  /-- The type with the blanks around it. -/
  type : Option (List Char)
  type_ne_nil : ∀ text ∈ type, text ≠ []
  bne_of_mem : ∀ text ∈ type, ∀ c ∈ text, (c != '=' && c != ';') = true

/-- Blanks are neither equals signs nor semicolons. -/
theorem bne_of_blanks {blanks : List Char} (hblanks : ∀ c ∈ blanks, isBlank c = true) :
    ∀ c ∈ blanks, (c != '=' && c != ';') = true :=
  fun c hc => bne_of_isBlank (by decide) (by decide) (hblanks c hc)

namespace VariableStart

variable (start : VariableStart)

/-- A variable begins without an equals sign and without a semicolon. -/
theorem bne_of_mem_text : ∀ c ∈ start.text, (c != '=' && c != ';') = true := by
  have hseparators : isWord '=' = false ∧ isWord ';' = false :=
    ⟨isWord_of_isSeparator (by decide), isWord_of_isSeparator (by decide)⟩
  have hname : ∀ c ∈ start.name, (c != '=' && c != ';') = true := by
    intro c hc
    have hword := start.isWord_of_mem c hc
    simp only [Bool.and_eq_true, bne_iff_ne]
    constructor
    · rintro rfl
      exact Bool.false_ne_true (hseparators.1.symm.trans hword)
    · rintro rfl
      exact Bool.false_ne_true (hseparators.2.symm.trans hword)
  have hword : ∀ c ∈ start.word.text.toList, (c != '=' && c != ';') = true := by
    cases start.word <;> decide
  simp only [text, Gap.behind, List.forall_mem_append]
  exact ⟨⟨by decide, bne_of_blanks start.behindExport.isBlank_of_mem⟩,
    ⟨hword, bne_of_blanks start.behindWord.isBlank_of_mem⟩, hname,
    bne_of_blanks start.isBlank_of_mem⟩

/-- Blanks and a character that is neither blank nor part of a name end a name. -/
theorem stops_isWord_behindName {c : Char} (hc : isSeparator c = true) (rest : List Char) :
    Stops isWord (start.behindName ++ c :: rest) := by
  cases hblank : start.behindName with
  | nil => exact stops_cons.mpr (isWord_of_isSeparator hc)
  | cons d blanks =>
    have hd : isBlank d = true := start.isBlank_of_mem d (by simp [hblank])
    exact stops_cons.mpr (isWord_of_isSeparator (by simp [isSeparator, hd]))

/-- The beginning of a variable is read, and what stands behind it decides. -/
theorem variableForm_append {c : Char} (hc : isSeparator c = true) (hblank : isBlank c = false)
    (rest : List Char) :
    variableForm (start.text ++ c :: rest) =
      (match declaredType (c :: rest) with
        | some (type, rest) => some (some type, rest)
        | none => (untyped (c :: rest)).map fun ((), rest) => (none, rest)).map
          fun (type, after) => ((start.word.text, start.name, type), after) := by
  have hword : start.word.text ∈ keywords := by
    cases start.word <;> decide
  have hgapExport (rest : List Char) :
      Scanner.blanks1 (start.behindExport.chars ++ (start.word.text.toList ++ rest)) =
        some (start.behindExport.chars, start.word.text.toList ++ rest) :=
    start.behindExport.blanks1_apply (startsWord_keyword hword rest).stops_blank
  have hgapWord (rest : List Char) :
      Scanner.blanks1 (start.behindWord.chars ++ (start.name ++ rest)) =
        some (start.behindWord.chars, start.name ++ rest) :=
    start.behindWord.blanks1_apply
      (startsWord_append start.name_ne_nil start.isWord_of_mem rest).stops_blank
  have hname : Scanner.name (start.name ++ (start.behindName ++ c :: rest)) =
      some (start.name, start.behindName ++ c :: rest) :=
    Scanner.run1_append start.name_ne_nil start.isWord_of_mem
      (start.stops_isWord_behindName hc rest)
  have hblanks : Scanner.blanks (start.behindName ++ c :: rest) =
      some (start.behindName, c :: rest) :=
    Scanner.run_append start.isBlank_of_mem (stops_cons.mpr hblank)
  simp only [text, Gap.behind, List.append_assoc, variableForm, exportMark, Scanner.bind_apply,
    Scanner.exactly_append, Option.bind_some, hgapExport, Scanner.pure_apply, oneOf_bindingWord,
    hgapWord, hname, hblanks]
  cases declaredType (c :: rest) with
  | some found => rfl
  | none => cases untyped (c :: rest) <;> rfl

end VariableStart

namespace VariableHead

variable (head : VariableHead)

/-- The text that is read. -/
def text : List Char := head.toVariableStart.text ++ (head.type.map (':' :: ·)).getD []

/-- What is found. -/
def value : String × List Char × Option (List Char) := (head.word.text, head.name, head.type)

/-- The symbol of the variable. -/
def symbol : ExportedSymbol := Export.symbol head.name head.word.kind head.type false

/-- What is read of a variable ends before the first equals sign and the first semicolon. -/
theorem bne_of_mem_text : ∀ c ∈ head.text, (c != '=' && c != ';') = true := by
  have hread := head.bne_of_mem
  rw [text, List.forall_mem_append]
  refine ⟨head.toVariableStart.bne_of_mem_text, ?_⟩
  cases htype : head.type with
  | none => exact List.forall_mem_nil _
  | some type =>
    rw [Option.map_some, Option.getD_some, List.forall_mem_cons]
    exact ⟨by decide, hread type htype⟩

/-- A variable is read up to the equals sign or the semicolon that ends it. -/
theorem variableForm_append {last : Char} (hlast : last = '=' ∨ last = ';') (after : List Char) :
    variableForm (head.text ++ last :: after) = some (head.value, after) := by
  have hread := head.bne_of_mem
  have hne := head.type_ne_nil
  cases htype : head.type with
  | none =>
    have hform : declaredType (last :: after) = none ∧
        untyped (last :: after) = some ((), after) ∧
          isSeparator last = true ∧ isBlank last = false := by
      obtain rfl | rfl := hlast
      · exact ⟨rfl, rfl, by decide, by decide⟩
      · exact ⟨rfl, rfl, by decide, by decide⟩
    obtain ⟨hdeclared, huntyped, hseparator, hblank⟩ := hform
    rw [text, htype, Option.map_none, Option.getD_none, List.append_nil,
      head.toVariableStart.variableForm_append hseparator hblank, hdeclared, huntyped, value, htype]
    rfl
  | some type =>
    have hdeclared := declaredType_append (hne type htype) (hread type htype) hlast after
    rw [text, htype, Option.map_some, Option.getD_some, List.append_assoc, List.cons_append,
      head.toVariableStart.variableForm_append (by decide) (by decide), hdeclared, value, htype]
    rfl

end VariableHead

/-- A declared type that is read has no equals sign and no semicolon, and one of them ends it. -/
theorem declaredType_eq_some {text type after : List Char}
    (hread : declaredType text = some (type, after)) :
    ∃ last, (last = '=' ∨ last = ';') ∧ type ≠ [] ∧
      (∀ c ∈ type, (c != '=' && c != ';') = true) ∧ text = ':' :: (type ++ last :: after) := by
  simp only [declaredType, Scanner.bind_apply, Option.bind_eq_some_iff] at hread
  obtain ⟨⟨⟨⟩, behindColon⟩, hcolon, ⟨found, behindType⟩, htype, ⟨mark, behindMark⟩, hmark,
    hresult⟩ := hread
  cases hresult
  obtain ⟨hne, hbne, -, rfl⟩ := Scanner.run1_eq_some htype
  obtain ⟨hmem, hexact⟩ := Scanner.exactly_of_oneOf hmark
  rw [Scanner.exactly_eq_some] at hcolon hexact
  dsimp only at hcolon hexact
  rw [List.mem_cons, List.mem_singleton] at hmem
  obtain rfl | rfl := hmem
  · exact ⟨'=', .inl rfl, hne, hbne, by rw [← hcolon, ← hexact]; rfl⟩
  · exact ⟨';', .inr rfl, hne, hbne, by rw [← hcolon, ← hexact]; rfl⟩

/-- What is read without a type ends with an equals sign or a semicolon. -/
theorem untyped_eq_some {text after : List Char} (hread : untyped text = some ((), after)) :
    ∃ last, (last = '=' ∨ last = ';') ∧ text = last :: after := by
  simp only [untyped, Scanner.bind_apply, Option.bind_eq_some_iff] at hread
  obtain ⟨⟨mark, behindMark⟩, hmark, hresult⟩ := hread
  cases hresult
  obtain ⟨hmem, hexact⟩ := Scanner.exactly_of_oneOf hmark
  rw [Scanner.exactly_eq_some] at hexact
  rw [List.mem_cons, List.mem_singleton] at hmem
  obtain rfl | rfl := hmem
  · exact ⟨'=', .inl rfl, hexact.symm⟩
  · exact ⟨';', .inr rfl, hexact.symm⟩

/-- Each of the keywords of a variable is that of a word. -/
theorem exists_bindingWord {keyword : String} (hmem : keyword ∈ ["const", "let", "var"]) :
    ∃ word : BindingWord, word.text = keyword := by
  simp only [List.mem_cons, List.not_mem_nil, or_false] at hmem
  obtain rfl | rfl | rfl := hmem
  · exact ⟨.constWord, rfl⟩
  · exact ⟨.letWord, rfl⟩
  · exact ⟨.varWord, rfl⟩

/-- The end of a variable is read behind its name with its type, if it has one. -/
theorem exists_head_of_start (start : VariableStart) {text after : List Char}
    {type : Option (List Char)}
    (hread : (match declaredType text with
      | some (type, rest) => some (some type, rest)
      | none => (untyped text).map fun ((), rest) => (none, rest)) = some (type, after)) :
    ∃ (head : VariableHead) (last : Char), (last = '=' ∨ last = ';') ∧
      head.toVariableStart = start ∧ head.type = type ∧
        start.text ++ text = head.text ++ last :: after := by
  cases hdeclared : declaredType text with
  | none =>
    rw [hdeclared] at hread
    obtain ⟨⟨⟨⟩, rest⟩, huntyped, hsame⟩ := Option.map_eq_some_iff.mp hread
    cases hsame
    obtain ⟨last, hlast, rfl⟩ := untyped_eq_some huntyped
    exact ⟨⟨start, none, nofun, nofun⟩, last, hlast, rfl, rfl, by simp [VariableHead.text]⟩
  | some found =>
    obtain ⟨type, rest⟩ := found
    rw [hdeclared] at hread
    cases hread
    obtain ⟨last, hlast, hne, hbne, rfl⟩ := declaredType_eq_some hdeclared
    exact ⟨⟨start, some type, by simpa using hne, by simpa using hbne⟩, last, hlast, rfl, rfl,
      by simp [VariableHead.text]⟩

/-- Whatever is read of a variable is the head of one, with the equals sign or the semicolon that
ends it. -/
theorem exists_head_of_variableForm {place after : List Char}
    {value : String × List Char × Option (List Char)}
    (hread : variableForm place = some (value, after)) :
    ∃ (head : VariableHead) (last : Char), (last = '=' ∨ last = ';') ∧ head.value = value ∧
      place = head.text ++ last :: after := by
  simp only [variableForm, exportMark, Scanner.bind_apply, Option.bind_eq_some_iff] at hread
  obtain ⟨⟨⟨⟩, behindExport⟩, ⟨⟨⟨⟩, behindMark⟩, hexport, ⟨gap, behindGap⟩, hgap, hpure⟩,
    ⟨keyword, behindKeyword⟩, hkeyword, ⟨wordGap, behindWord⟩, hwordGap, ⟨name, behindName⟩, hname,
    ⟨blanks, behindBlanks⟩, hblanks, ⟨type, behindType⟩, htype, hresult⟩ := hread
  cases hpure
  cases hresult
  obtain ⟨hmem, hexact⟩ := Scanner.exactly_of_oneOf hkeyword
  rw [Scanner.exactly_eq_some] at hexport hexact
  obtain ⟨hgapNe, hgapBlank, -, rfl⟩ := Scanner.run1_eq_some hgap
  obtain ⟨hwordNe, hwordBlank, -, rfl⟩ := Scanner.run1_eq_some hwordGap
  obtain ⟨hnameNe, hnameWord, -, rfl⟩ := Scanner.run1_eq_some hname
  obtain ⟨hblank, -, rfl⟩ := Scanner.run_eq_some hblanks
  obtain ⟨word, rfl⟩ := exists_bindingWord hmem
  let start : VariableStart := ⟨⟨gap, hgapNe, hgapBlank⟩, word, ⟨wordGap, hwordNe, hwordBlank⟩,
    name, hnameNe, hnameWord, blanks, hblank⟩
  obtain ⟨head, last, hlast, hstart, rfl, hbehind⟩ := exists_head_of_start start htype
  refine ⟨head, last, hlast, ?_, ?_⟩
  · rw [VariableHead.value, hstart]
  · dsimp only at hexact
    rw [← hbehind, ← hexport, ← hexact]
    simp [start, VariableStart.text, Gap.behind]

/-- A text that starts with the head of a variable is split at the end of the head. -/
theorem eq_of_append_text {front behind after : List Char} {c last : Char}
    (hfront : ∀ d ∈ front, (d != '=' && d != ';') = true) (hc : c = '=' ∨ c = ';')
    {head : VariableHead} (hlast : last = '=' ∨ last = ';')
    (hsame : front ++ c :: behind = head.text ++ last :: after) :
    front = head.text ∧ c = last ∧ behind = after := by
  have hstops {d : Char} (hd : d = '=' ∨ d = ';') (rest : List Char) :
      Stops (fun c => c != '=' && c != ';') (d :: rest) := by
    obtain rfl | rfl := hd <;> exact stops_cons.mpr (by decide)
  have htake := takeWhile_append_of_stops hfront (hstops hc behind)
  have hdrop := dropWhile_append_of_stops hfront (hstops hc behind)
  rw [hsame, takeWhile_append_of_stops head.bne_of_mem_text (hstops hlast after)] at htake
  rw [hsame, dropWhile_append_of_stops head.bne_of_mem_text (hstops hlast after),
    List.cons.injEq] at hdrop
  exact ⟨htake.symm, hdrop.1.symm, hdrop.2.symm⟩

/-- What is read of a variable at a place behind which there is an equals sign or a semicolon does
not depend on the text behind that. -/
theorem variableForm_append_tail {place : List Char} (hends : '=' ∈ place ∨ ';' ∈ place)
    (tail : List Char) :
    variableForm (place ++ tail) =
      (variableForm place).map fun found => (found.1, found.2 ++ tail) := by
  have hlonger {value : String × List Char × Option (List Char)} {after : List Char}
      (hread : variableForm place = some (value, after)) :
      variableForm (place ++ tail) = some (value, after ++ tail) := by
    obtain ⟨head, last, hlast, rfl, rfl⟩ := exists_head_of_variableForm hread
    rw [List.append_assoc, List.cons_append]
    exact head.variableForm_append hlast (after ++ tail)
  cases hread : variableForm place with
  | some found => exact hlonger hread
  | none =>
    -- What is read of the longer text ends at the first of the two marks, which is in the place.
    rw [Option.map_none, Option.eq_none_iff_forall_not_mem]
    rintro ⟨value, after⟩ hfound
    obtain ⟨head, last, hlast, rfl, hwhole⟩ := exists_head_of_variableForm hfound
    have hmark : ∃ c ∈ place, (c != '=' && c != ';') = false := by
      obtain hmem | hmem := hends
      · exact ⟨'=', hmem, by decide⟩
      · exact ⟨';', hmem, by decide⟩
    obtain ⟨front, c, behind, hfront, hc, rfl⟩ := exists_eq_append_cons hmark
    have hc : c = '=' ∨ c = ';' := by simpa [or_iff_not_imp_left] using hc
    rw [List.append_assoc, List.cons_append] at hwhole
    obtain ⟨rfl, rfl, -⟩ := eq_of_append_text hfront hc hlast hwhole
    rw [head.variableForm_append hlast] at hread
    cases hread

/-- A text in which every exported variable ends: behind every `export` stands an equals sign or a
semicolon. -/
def EndsVariables (left : List Char) : Prop :=
  ∀ place ∈ left.tails, "export".toList <+: place → '=' ∈ place ∨ ';' ∈ place

instance (left : List Char) : Decidable (EndsVariables left) :=
  inferInstanceAs (Decidable (∀ place ∈ left.tails,
    "export".toList <+: place → '=' ∈ place ∨ ';' ∈ place))

/-- In a text in which every variable ends, the same variables are found if a variable follows it,
and the search goes on with that one. -/
theorem occurrencesFrom_variableForm {left : List Char} (hleft : EndsVariables left)
    (before : List Char) (head : VariableHead) (after : List Char) :
    occurrencesFrom variableForm before 0 (left ++ (head.text ++ after)) =
      (occurrencesFrom variableForm before 0 left).map (Occurrence.extend (head.text ++ after)) ++
        occurrencesFrom variableForm (left.reverse ++ before) 0 (head.text ++ after) := by
  refine occurrencesFrom_append before _ ?_ ?_
  · intro place value behind hread
    obtain ⟨found, last, -, -, rfl⟩ := exists_head_of_variableForm hread
    exact ⟨found.text ++ [last], by simp, by simp⟩
  · intro place hne hplace
    by_cases hexport : "export".toList <+: place
    · exact variableForm_append_tail (hleft place ((List.mem_tails _ _).mpr hplace) hexport) _
    · -- no `export` begins in the place and ends in the variable, whose own begins there
      have hlonger : ¬ "export".toList <+: place ++ (head.text ++ after) := by
        obtain ⟨first, more, rfl⟩ := List.exists_cons_of_ne_nil hne
        have htail : head.text ++ after = 'e' :: (head.text ++ after).tail := rfl
        rw [htail]
        intro hprefix
        obtain ⟨rfl, hrest⟩ := List.cons_prefix_cons.mp hprefix
        exact hexport (List.cons_prefix_cons.mpr
          ⟨rfl, prefix_of_prefix_append_cons (by decide) hrest⟩)
      have hnone {text : List Char} (htext : ¬ "export".toList <+: text) :
          variableForm text = none := Declaration.spaced_bind_eq_none htext _
      rw [hnone hlonger, hnone hexport]
      rfl

end ChangeImpact.Export
