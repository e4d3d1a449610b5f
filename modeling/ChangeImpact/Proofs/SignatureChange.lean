import ChangeImpact.Proofs.WrittenSignature

/-!
# What is said of two written signatures

The parts of a written signature are read back from its text. So the comparison of two written
signatures finds a change exactly if their texts differ, and says of it what their parts say.
-/

namespace ChangeImpact

open Text Signature

/-! ### Parts read back -/

namespace WrittenParam

variable (p : WrittenParam)

/-- A list is not split inside of a written parameter. -/
theorem splitFrom_text_append (previous : Option Char) (current rest : List Char) :
    splitFrom 0 previous current (p.text ++ rest) =
      splitFrom 0 (lastOr previous p.text) (p.text.reverse ++ current) rest :=
  splitFrom_append (p.nests_text previous) current rest

/-- The closing parenthesis is not inside of a written parameter. -/
theorem closing?_text_append (rest : List Char) :
    closing? 1 (p.text ++ rest) =
      (closing? 1 rest).map fun found => (p.text ++ found.1, found.2) := by
  simpa using closing?_append (p.nests_text none) Nat.one_pos rest

/-- The type of a written parameter is found behind its first colon. -/
theorem afterColon?_text : afterColon? 0 none p.text = some (' ' :: p.type.chars) :=
  afterColon?_append p.isUnmarked_of_mem_lead p.colon_not_mem_lead _

/-- A parameter that takes the remaining arguments is written as another one behind the dots. -/
theorem text_of_isRest (hrest : p.isRest = true) :
    p.text = '.' :: '.' :: '.' :: { p with isRest := false }.text := by
  simp [text, lead, hrest]

/-- No other parameter starts with a dot. -/
theorem head?_text_ne (hrest : p.isRest = false) : p.text.head? ≠ some '.' := by
  obtain ⟨c, chars, hname⟩ := List.exists_cons_of_ne_nil p.name.chars_ne_nil
  have hc : isNameChar c = true := p.name.isNameChar_of_mem c (by simp [hname])
  have hdot : c ≠ '.' := ne_of_isNameChar hc '.' (by decide)
  simpa [text, lead, hrest, hname] using hdot

end WrittenParam

/-- The type of a written parameter is read back. -/
theorem paramType_text (p : WrittenParam) :
    paramType (String.ofList p.text) = String.ofList p.type.chars := by
  have hbehind (q : WrittenParam) :
      collapse ((afterColon? 0 none q.text).getD q.text) = q.type.chars := by
    rw [q.afterColon?_text, Option.getD_some, q.type.isCollapsed.collapse_cons (by decide)]
  rw [paramType, String.toList_ofList, p.isCollapsed_text.trim_eq]
  -- The dots in front are taken off, and what is left is written as a parameter without them.
  cases hrest : p.isRest with
  | true =>
    rw [p.text_of_isRest hrest]
    simp only [WrittenParam.isCollapsed_text, IsCollapsed.trim_eq, hbehind]
  | false =>
    have hhead := p.head?_text_ne hrest
    split
    · next htext => simp [htext] at hhead
    · rw [hbehind]

/-- The name of a written parameter is read back without its marks. -/
theorem paramName_text (p : WrittenParam) :
    paramName (String.ofList p.text) = String.ofList p.name.chars := by
  have hlead : p.text.takeWhile (· != ':') = p.lead :=
    takeWhile_append_of_stops (bne_of_not_mem p.colon_not_mem_lead) (stops_cons.mpr (by decide))
  have hkeep : p.name.chars.filter (fun c => c != '?' && c != '.') = p.name.chars :=
    List.filter_eq_self.mpr fun c hc => by
      have hmarks := ne_of_isNameChar (p.name.isNameChar_of_mem c hc)
      rw [Bool.and_eq_true, bne_iff_ne, bne_iff_ne]
      exact ⟨hmarks '?' (by decide), hmarks '.' (by decide)⟩
  have hmarks : p.lead.filter (fun c => c != '?' && c != '.') = p.name.chars := by
    rw [WrittenParam.lead, List.filter_append, List.filter_append, hkeep]
    cases p.isRest <;> cases p.isOptional <;> simp
  have hname : IsCollapsed p.name.chars := isCollapsed_of_not_isBlank fun c hc =>
    isBlank_of_isNameChar (p.name.isNameChar_of_mem c hc)
  rw [paramName, String.toList_ofList, hlead, hmarks, hname.trim_eq]

/-- One parameter is written without a comma. -/
@[simp] theorem paramsText_singleton (p : WrittenParam) : paramsText [p] = p.text := by
  rw [paramsText, List.map_singleton, List.intercalate_singleton]

/-- A comma and a blank stand between parameters. -/
theorem paramsText_cons_cons (p q : WrittenParam) (params : List WrittenParam) :
    paramsText (p :: q :: params) = p.text ++ ',' :: ' ' :: paramsText (q :: params) := by
  rw [paramsText, List.map_cons, List.map_cons, List.intercalate_cons_cons, List.append_assoc]
  rfl

/-- The cut at the commas finds the written parameters, each but the first with a space in front. -/
theorem splitFrom_paramsText (previous : Option Char) (current : List Char) (p : WrittenParam)
    (params : List WrittenParam) :
    splitFrom 0 previous current (paramsText (p :: params)) =
      (current.reverse ++ p.text) :: params.map (' ' :: ·.text) := by
  induction params generalizing p previous current with
  | nil =>
    rw [paramsText_singleton, ← List.append_nil p.text, p.splitFrom_text_append, splitFrom]
    simp
  | cons q params ih =>
    have hspace : nesting (some ',') ' ' = 0 := by decide
    rw [paramsText_cons_cons, p.splitFrom_text_append, splitFrom, if_pos (by decide), splitFrom,
      if_neg (by decide), hspace, Int.add_zero, ih]
    simp

/-- The parameters of a written signature are read back. -/
theorem splitParams_paramsText (params : List WrittenParam) :
    splitParams (paramsText params) = params.map (String.ofList ·.text) := by
  cases params with
  | nil => rfl
  | cons p params =>
    have htrim (p : WrittenParam) : trim p.text = p.text := p.isCollapsed_text.trim_eq
    have hspace (p : WrittenParam) : trim (' ' :: p.text) = p.text := by
      rw [trim_cons_of_isBlank (by decide), htrim]
    have hparts : (splitFrom 0 none [] (paramsText (p :: params))).map trim =
        (p :: params).map WrittenParam.text := by
      rw [splitFrom_paramsText]
      simp [htrim, hspace]
    have hkeep (p : WrittenParam) : (if p.text.isEmpty then none else some (String.ofList p.text)) =
        some (String.ofList p.text) := if_neg (by simp [p.text_ne_nil])
    rw [splitParams, hparts, List.filterMap_map]
    simp only [Function.comp_def, hkeep]
    rw [List.filterMap_eq_map']

/-- The parenthesis behind written parameters is the one that closes them. -/
theorem closing?_paramsText (params : List WrittenParam) (after : List Char) :
    closing? 1 (paramsText params ++ ')' :: after) = some (paramsText params, after) := by
  have hclose : closing? 1 (')' :: after) = some ([], after) := rfl
  induction params with
  | nil => exact hclose
  | cons p params ih =>
    cases params with
    | nil =>
      rw [paramsText_singleton, p.closing?_text_append, hclose, Option.map_some, List.append_nil]
    | cons q params =>
      have hpass (rest : List Char) : closing? 1 (',' :: ' ' :: rest) =
          (closing? 1 rest).map fun found => (',' :: ' ' :: found.1, found.2) := by
        simp [closing?, Option.map_map, Function.comp_def]
      rw [paramsText_cons_cons, List.append_assoc, p.closing?_text_append, List.cons_append,
        List.cons_append, hpass, ih, Option.map_some, Option.map_some]

/-- The text of some parameters is not empty. -/
theorem paramsText_ne_nil (p : WrittenParam) (params : List WrittenParam) :
    paramsText (p :: params) ≠ [] := by
  cases params with
  | nil => simp [p.text_ne_nil]
  | cons q params => simp [paramsText_cons_cons]

/-- Written parameters are collapsed. -/
theorem isCollapsed_paramsText (params : List WrittenParam) : IsCollapsed (paramsText params) := by
  induction params with
  | nil => exact isCollapsed_nil
  | cons p params ih =>
    cases params with
    | nil =>
      rw [paramsText_singleton]
      exact p.isCollapsed_text
    | cons q params =>
      have hcomma : IsCollapsed (p.text ++ [',']) :=
        p.isCollapsed_text.append (isCollapsed_of_not_isBlank (by decide))
      have htext := hcomma.append_space ih (by simp) (paramsText_ne_nil q params)
      rwa [List.append_assoc, List.singleton_append, ← paramsText_cons_cons] at htext

/-- A return type is collapsed behind its colon. -/
theorem ReturnType.isCollapsed_cons (type : ReturnType) :
    IsCollapsed (':' :: ' ' :: type.chars) := by
  have hcolon : IsCollapsed [':'] := isCollapsed_of_not_isBlank (by decide)
  exact hcolon.append_space type.isCollapsed (by simp) type.chars_ne_nil

namespace WrittenSignature

variable (s base head : WrittenSignature)

/-- A written signature is collapsed. -/
theorem isCollapsed_text : IsCollapsed s.text := by
  have hreturns : IsCollapsed s.returnText := by
    rw [returnText]
    cases s.returns with
    | none => exact isCollapsed_nil
    | some type => exact type.isCollapsed_cons
  have hbehind : IsCollapsed (')' :: s.returnText) := hreturns.cons (by decide)
  exact ((isCollapsed_paramsText s.params).append hbehind).cons (by decide)

/-- The parts of a written signature are read back from its text. -/
theorem ofText_text : Signature.ofText (String.ofList s.text) =
    ⟨s.params.map (String.ofList ·.text), s.returns.map (String.ofList ·.chars)⟩ := by
  have hcollapse : collapse s.text = '(' :: (paramsText s.params ++ ')' :: s.returnText) :=
    s.isCollapsed_text
  rw [Signature.ofText, String.toList_ofList, hcollapse]
  simp only [closing?_paramsText, splitParams_paramsText, returnText]
  cases s.returns with
  | none => rfl
  | some type =>
    have htype : collapse (' ' :: type.chars) = type.chars :=
      type.isCollapsed.collapse_cons (by decide)
    simp only [Option.map_some, Option.getD_some, type.isCollapsed_cons.trim_eq, htype]

/-! ### Changes in words -/

/-- What is said of two parameters in one position. -/
def typeChange (base head : WrittenParam) : String :=
  let name := String.ofList base.name.chars
  let before := String.ofList base.type.chars
  let after := String.ofList head.type.chars
  s!"parameter '{name}' type changed " ++ s!"from '{before}' to '{after}'"

/-- What is said of the return types. -/
def returnChange : Option ReturnType → Option ReturnType → List String
  | none, none => []
  | none, some head => [s!"return type added: '{String.ofList head.chars}'"]
  | some base, none => [s!"return type removed (was '{String.ofList base.chars}')"]
  | some base, some head =>
    let before := String.ofList base.chars
    let after := String.ofList head.chars
    if base.chars = head.chars then [] else [s!"return type changed from '{before}' to '{after}'"]

/-- What the parts of two signatures say of a change, in order: one line if the numbers of their
parameters differ, one for each common position where the types differ, and one if the return types
differ. -/
def changes : List String :=
  (if base.params.length = head.params.length then []
    else [s!"parameter count changed from {base.params.length} to {head.params.length}"]) ++
  ((base.params.zip head.params).filter fun pair => pair.1.type.chars ≠ pair.2.type.chars).map
    (fun pair => typeChange pair.1 pair.2) ++
  returnChange base.returns head.returns

/-- Two parameters differ if their types do. -/
theorem paramDifference?_text (base head : WrittenParam) :
    paramDifference? (String.ofList base.text) (String.ofList head.text) =
      if base.type.chars ≠ head.type.chars then some (typeChange base head) else none := by
  simp only [paramDifference?, paramType_text, paramName_text, String.ofList_inj, typeChange, ne_eq,
    ite_not]

/-- The difference between two return types is the change that is written for it. -/
theorem toList_returnDifference? (base head : Option ReturnType) :
    (returnDifference? (base.map (String.ofList ·.chars))
      (head.map (String.ofList ·.chars))).toList = returnChange base head := by
  cases base with
  | none => cases head <;> rfl
  | some base =>
    cases head with
    | none => rfl
    | some head =>
      simp only [Option.map_some, returnDifference?, returnChange, String.ofList_inj]
      split_ifs <;> rfl

/-- The differences that are found between two written signatures are those of their parts. -/
theorem differences_ofText_text :
    Signature.differences (Signature.ofText (String.ofList base.text))
      (Signature.ofText (String.ofList head.text)) = base.changes head := by
  have hcount : (countDifference? base.params.length head.params.length).toList = _ :=
    apply_ite Option.toList _ _ _
  have htypes : ((base.params.map (String.ofList ·.text)).zip
        (head.params.map (String.ofList ·.text))).filterMap
          (fun pair => paramDifference? pair.1 pair.2) =
      ((base.params.zip head.params).filter fun pair =>
        pair.1.type.chars ≠ pair.2.type.chars).map fun pair => typeChange pair.1 pair.2 := by
    rw [List.zip_map, List.filterMap_map, ← List.filterMap_eq_map, List.filterMap_filter]
    simp only [Function.comp_def, Prod.map, paramDifference?_text, decide_eq_true_eq]
  simp only [ofText_text, Signature.differences, List.length_map, hcount, htypes,
    toList_returnDifference?]
  rfl

/-- The comparison of two written signatures finds a change exactly if their texts differ. Then it
says what their parts say, and that there is one if they say nothing. -/
theorem compare_text :
    SignatureDiff.compare (some (String.ofList base.text)) (some (String.ofList head.text)) =
      if base.text = head.text then ⟨false, ["signatures are identical"]⟩
      else ⟨true, if base.changes head = [] then ["signature changed"] else base.changes head⟩ := by
  have hbase : collapse base.text = base.text := base.isCollapsed_text
  have hhead : collapse head.text = head.text := head.isCollapsed_text
  simp only [SignatureDiff.compare, String.toList_ofList, hbase, hhead, differences_ofText_text]
  congr 1
  cases base.changes head <;> rfl

-- A mark at a parameter changes the text, and no part that is compared.
example : SignatureDiff.compare (some "(a: string)") (some "(a?: string)") =
    ⟨true, ["signature changed"]⟩ := by decide +kernel

end WrittenSignature

end ChangeImpact
