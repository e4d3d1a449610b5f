import ChangeImpact.Proofs.HeaderScan

/-!
# Recorded signatures

What is recorded of the header of a function is all of it if no parenthesis closes within the
parameters, or if a colon follows the first that does and no brace or semicolon comes after the
colon. In every other case the rest of the parameters and the return type are lost.
-/

namespace ChangeImpact.Export

open Text Declaration

section TypeSplit

variable {text lead type : List Char}

/-- Nothing is left of a text that is a return type. -/
theorem typeSplit_of_inType (hlead : ∀ c ∈ lead, isBlank c = true) (hne : type ≠ [])
    (htype : ∀ c ∈ type, inType c = true) :
    typeSplit (lead ++ ':' :: type) = (lead ++ ':' :: type, []) := by
  have hread := Scanner.run1_append hne htype (stops_nil (p := inType))
  rw [List.append_nil] at hread
  rw [typeSplit, returnType_colon hlead, hread]
  rfl

/-- Blanks belong to a return type. -/
theorem inType_of_isBlank {c : Char} (hc : isBlank c = true) : inType c = true :=
  bne_of_isBlank (by decide) (by decide) hc

/-- Only blanks are left of a text exactly if it is blank or a return type. -/
theorem typeSplit_blank_iff :
    (∀ c ∈ (typeSplit text).2, isBlank c = true) ↔ (∀ c ∈ text, isBlank c = true) ∨
      ∃ lead type, text = lead ++ ':' :: type ∧ (∀ c ∈ lead, isBlank c = true) ∧ type ≠ [] ∧
        ∀ c ∈ type, inType c = true := by
  constructor
  · intro hblank
    obtain ⟨lead, type, rfl, hlead⟩ | hstops := colon_or_stops text
    · refine .inr ⟨lead, type, rfl, hlead, ?_⟩
      rw [typeSplit, returnType_colon hlead, Scanner.run1] at hblank
      cases hread : type.takeWhile inType with
      | nil =>
        have hkept := hblank ':' (by simp [hread])
        cases hkept
      | cons c read =>
        -- what ends a return type is no blank, so that nothing is left behind it
        have hnil : type.dropWhile inType = [] := by
          cases hrest : type.dropWhile inType with
          | nil => rfl
          | cons d rest =>
            have hd := inType_of_isBlank (hblank d (by simp [hread, hrest]))
            have hstop := List.head?_dropWhile_not inType type
            simp [hrest, hd] at hstop
        rw [List.dropWhile_eq_nil_iff] at hnil
        refine ⟨?_, hnil⟩
        rintro rfl
        cases hread
    · rw [typeSplit_of_stops hstops] at hblank
      exact .inl hblank
  · rintro (htext | ⟨lead, type, rfl, hlead, hne, htype⟩)
    · have hnil : text.dropWhile isBlank = [] := List.dropWhile_eq_nil_iff.mpr htext
      rw [typeSplit_of_stops (by rw [hnil]; exact stops_nil)]
      exact htext
    · rw [typeSplit_of_inType hlead hne htype]
      exact List.forall_mem_nil _

end TypeSplit

section Header

variable (layout : Layout) (params : Part []) (returns : Option (Part ['\x7b', ';']))

/-- The blanks of a header do not matter to its collapsed signature. -/
theorem collapse_header : collapse ('(' :: (params.chars ++ ')' :: behindParams layout returns)) =
    collapse (declaredSignature params returns) := by
  cases returns with
  | none =>
    have hheader : '(' :: (params.chars ++ ')' :: behindParams layout none) =
        '(' :: (params.chars ++ [')']) ++ layout.head.chars := by
      simp [behindParams, colonType]
    rw [hheader, collapse_append_eq_iff.mpr layout.head.isBlank_of_mem]
    rfl
  | some type =>
    have hheader : '(' :: (params.chars ++ ')' :: behindParams layout (some type)) =
        ('(' :: (params.chars ++ [')', ':'])) ++ (layout.colon.chars ++ type.chars) ++
          layout.head.chars := by
      simp [behindParams, colonType]
    have hspace : declaredSignature params (some type) =
        ('(' :: (params.chars ++ [')', ':'])) ++ ([' '] ++ type.chars) := by
      simp [declaredSignature]
    rw [hheader, hspace, collapse_append_eq_iff.mpr layout.head.isBlank_of_mem]
    exact collapse_append_gap layout.colon.chars_ne_nil layout.colon.isBlank_of_mem
      (List.cons_ne_nil _ _) (by decide) _ _

/-- A recorded signature is the declared one exactly if only blanks are left of the header. -/
theorem collapse_recordedSignature_iff :
    collapse (recordedSignature params.chars (behindParams layout returns)) =
        collapse (declaredSignature params returns) ↔
      ∀ c ∈ (typeSplit (behindFirst params.chars (behindParams layout returns))).2,
        isBlank c = true := by
  rw [← collapse_header layout, ← recordedSignature_append, eq_comm]
  exact collapse_append_eq_iff

/-- What stands behind the parameters of a function is made of the characters of a return type. -/
theorem inType_behindParams : ∀ c ∈ behindParams layout returns, inType c = true := by
  have hhead : ∀ c ∈ layout.head.chars, inType c = true :=
    fun c hc => inType_of_isBlank (layout.head.isBlank_of_mem c hc)
  cases returns with
  | none => exact hhead
  | some type =>
    have htype : ∀ c ∈ type.chars, inType c = true := type.bne_of_mem
    have hcolon : ∀ c ∈ layout.colon.chars, inType c = true :=
      fun c hc => inType_of_isBlank (layout.colon.isBlank_of_mem c hc)
    simp only [behindParams, colonType, List.forall_mem_append, List.forall_mem_cons]
    exact ⟨⟨by decide, hcolon, htype⟩, hhead⟩

/-- What stands behind the parameters of a function is blank or a return type. -/
theorem typeSplit_behindParams :
    ∀ c ∈ (typeSplit (behindParams layout returns)).2, isBlank c = true := by
  have hchars := inType_behindParams layout returns
  rw [typeSplit_blank_iff]
  cases returns with
  | none => exact .inl layout.head.isBlank_of_mem
  | some type =>
    have hbehind : behindParams layout (some type) =
        [] ++ ':' :: (layout.colon.chars ++ type.chars ++ layout.head.chars) := rfl
    rw [hbehind, List.nil_append, List.forall_mem_cons] at hchars
    exact .inr ⟨[], _, hbehind, List.forall_mem_nil _, by simp [layout.head.chars_ne_nil],
      hchars.2⟩

end Header

/-- Parameters of which the search for a closing parenthesis loses nothing: none closes in them, or
what follows the first that does reads as a return type. -/
def Kept (params : List Char) : Prop :=
  ')' ∉ params ∨ ∃ inside lead type, params = inside ++ ')' :: (lead ++ ':' :: type) ∧
    ')' ∉ inside ∧ (∀ c ∈ lead, isBlank c = true) ∧ ∀ c ∈ type, inType c = true

section Kept

variable (layout : Layout) (params : Part []) (returns : Option (Part ['\x7b', ';']))

/-- Where a parenthesis closes within the parameters, the others stand behind it. -/
theorem behindFirst_append_cons {inside : List Char} (hinside : ')' ∉ inside)
    (after behind : List Char) :
    behindFirst (inside ++ ')' :: after) behind = after ++ ')' :: behind := by
  have hstops : Stops (· != ')') (')' :: after) := stops_cons.mpr (by decide)
  rw [behindFirst, dropWhile_append_of_stops (bne_of_not_mem hinside) hstops]
  rfl

/-- Where no parenthesis closes within the parameters, what follows them stands behind. -/
theorem behindFirst_eq {inside : List Char} (hinside : ')' ∉ inside) (behind : List Char) :
    behindFirst inside behind = behind := by
  rw [behindFirst, List.dropWhile_eq_nil_iff.mpr (bne_of_not_mem hinside)]
  rfl

/-- Where no colon follows the first parenthesis that closes within the parameters, nothing behind
it is recorded. -/
theorem recordedSignature_append_cons {inside after : List Char} (hinside : ')' ∉ inside)
    (hafter : Stops (· == ':') (after.dropWhile isBlank)) (behind : List Char) :
    recordedSignature (inside ++ ')' :: after) behind = '(' :: (inside ++ [')']) := by
  have hread := bne_of_not_mem hinside
  have hclose : Stops (· != ')') (')' :: after) := stops_cons.mpr (by decide)
  have hstops : Stops (· == ':') ((after ++ ')' :: behind).dropWhile isBlank) := by
    cases hdrop : after.dropWhile isBlank with
    | nil =>
      rw [List.dropWhile_append_of_pos (List.dropWhile_eq_nil_iff.mp hdrop)]
      exact stops_cons.mpr (by decide)
    | cons c rest =>
      rw [hdrop, stops_cons] at hafter
      rw [List.dropWhile_append, hdrop]
      exact stops_cons.mpr hafter
  rw [recordedSignature, behindFirst_append_cons hinside, typeSplit_of_stops hstops,
    takeWhile_append_of_stops hread hclose]

/-- A text with a closing parenthesis starts with a colon behind its blanks where what is before
the parenthesis does. -/
theorem colon_of_append {after behind lead type : List Char}
    (htext : after ++ ')' :: behind = lead ++ ':' :: type) (hlead : ∀ c ∈ lead, isBlank c = true) :
    ∃ more, after = lead ++ ':' :: more ∧ type = more ++ ')' :: behind := by
  obtain ⟨more, hmore, hright⟩ | ⟨more, rfl, hright⟩ := List.append_eq_append_iff.mp htext
  · -- the blanks would reach the parenthesis
    cases more with
    | nil => cases hright
    | cons c more =>
      rw [List.cons_append, List.cons.injEq] at hright
      rw [hmore, ← hright.1] at hlead
      have hclose := hlead ')' (by simp)
      cases hclose
  · cases more with
    | nil => cases hright
    | cons c more =>
      rw [List.cons_append, List.cons.injEq] at hright
      exact ⟨more, by rw [hright.1], hright.2⟩

/-- The declared signature is recorded exactly if nothing of the parameters is lost. -/
theorem collapse_recordedSignature_iff_kept :
    collapse (recordedSignature params.chars (behindParams layout returns)) =
        collapse (declaredSignature params returns) ↔ Kept params.chars := by
  rw [collapse_recordedSignature_iff]
  by_cases hclose : ')' ∈ params.chars
  · obtain ⟨inside, after, hparams, hinside⟩ := List.eq_append_cons_of_mem hclose
    rw [hparams, behindFirst_append_cons hinside, typeSplit_blank_iff]
    constructor
    · rintro (hblank | ⟨lead, type, htext, hlead, -, htype⟩)
      · have hkept := hblank ')' (by simp)
        cases hkept
      · obtain ⟨more, rfl, rfl⟩ := colon_of_append htext hlead
        rw [List.forall_mem_append] at htype
        exact .inr ⟨inside, lead, more, rfl, hinside, hlead, htype.1⟩
    · rintro (hnone | ⟨start, lead, type, hsplit, hstart, hlead, htype⟩)
      · exact absurd (by simp) hnone
      · have hsame : behindFirst (inside ++ ')' :: after) [] = behindFirst
            (start ++ ')' :: (lead ++ ':' :: type)) [] := by rw [hsplit]
        rw [behindFirst_append_cons hinside, behindFirst_append_cons hstart,
          List.append_left_inj] at hsame
        rw [hsame]
        refine .inr ⟨lead, type ++ ')' :: behindParams layout returns, by simp, hlead, by simp, ?_⟩
        rw [List.forall_mem_append, List.forall_mem_cons]
        exact ⟨htype, by decide, inType_behindParams layout returns⟩
  · rw [behindFirst_eq hclose]
    exact iff_of_true (typeSplit_behindParams layout returns) (.inl hclose)

end Kept

namespace Declaration

variable (layout : Layout)

/-- Functions are recorded as they are declared exactly if nothing of their parameters is lost. -/
theorem recorded_function_eq_symbol_iff (isDefault isAsync : Bool) (name : Name)
    (params : Part []) (returns : Option (Part ['\x7b', ';'])) (body : Part []) :
    (function isDefault isAsync name params returns body).recorded layout =
        (function isDefault isAsync name params returns body).symbol ↔ Kept params.chars := by
  rw [← collapse_recordedSignature_iff_kept layout params returns, ← String.ofList_inj]
  simp [recorded, symbol, Export.symbol]

/-- Declarations whose parameters, if they have any, close no parenthesis. -/
def IsFlat : Declaration → Prop
  | function _ _ _ params _ _ => ')' ∉ params.chars
  | classType _ _ _ _ | binding _ _ _ _ | interface _ _ | typeAlias _ _ | enum _ _
  | defaultName _ _ => True

instance : (d : Declaration) → Decidable d.IsFlat
  | function _ _ _ params _ _ => inferInstanceAs (Decidable (')' ∉ params.chars))
  | classType _ _ _ _ | binding _ _ _ _ | interface _ _ | typeAlias _ _ | enum _ _
  | defaultName _ _ => inferInstanceAs (Decidable True)

/-- Declarations whose parameters close no parenthesis are recorded as they are declared. -/
theorem IsFlat.recorded_eq_symbol {d : Declaration} (hflat : d.IsFlat) :
    d.recorded layout = d.symbol := by
  cases d with
  | function isDefault isAsync name params returns body =>
    exact (recorded_function_eq_symbol_iff layout isDefault isAsync name params returns body).mpr
      (.inl hflat)
  | classType | binding | interface | typeAlias | enum | defaultName => rfl

end Declaration

end ChangeImpact.Export
