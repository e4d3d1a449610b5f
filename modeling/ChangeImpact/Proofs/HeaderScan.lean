import ChangeImpact.Proofs.Declaration
import Mathlib.Data.List.TakeWhile

/-!
# Reading the header of a function

The parameters of a function are read up to the first closing parenthesis, wherever it stands, and
what follows it is read as a return type if it starts with a colon. The brace that opens the body
ends the header: what is read of a function does not depend on its body.
-/

namespace ChangeImpact.Export

open Text

section EndsAt

variable {α β : Type} {c : Char} {p : Char → Bool}

/-- A character ends what a scanner reads: what follows the character does not matter. -/
def EndsAt (c : Char) (scan : Scanner α) : Prop :=
  ∀ text rest, scan (text ++ c :: rest) =
    (scan text).map fun found => (found.1, found.2 ++ c :: rest)

/-- A run ends at a character of another class. -/
theorem endsAt_run (hc : p c = false) : EndsAt c (Scanner.run p) := by
  intro text rest
  rw [Scanner.run, Scanner.run, Option.map_some, Option.some.injEq]
  induction text with
  | nil => simp [hc]
  | cons d text ih =>
    rw [Prod.mk.injEq] at ih
    cases hd : p d with
    | true => simp [hd, ih.1, ih.2]
    | false => simp [hd]

/-- A run that may not be empty ends at a character of another class. -/
theorem endsAt_run1 (hc : p c = false) : EndsAt c (Scanner.run1 p) := by
  intro text rest
  have hrun := endsAt_run hc text rest
  simp only [Scanner.run, Option.map_some, Option.some.injEq, Prod.mk.injEq] at hrun
  rw [Scanner.run1, Scanner.run1, hrun.1, hrun.2]
  cases text.takeWhile p <;> rfl

/-- A fixed text ends at a character that does not belong to it. -/
theorem endsAt_exactly {lead : String} (hc : c ∉ lead.toList) :
    EndsAt c (Scanner.exactly lead) := by
  intro text rest
  by_cases hlead : lead.toList <+: text
  · obtain ⟨behind, rfl⟩ := hlead
    rw [List.append_assoc, Scanner.exactly_append, Scanner.exactly_append]
    rfl
  · have hlonger : ¬ lead.toList <+: text ++ c :: rest :=
      fun h => hlead (prefix_of_prefix_append_cons hc h)
    rw [Scanner.exactly_eq_none hlead, Scanner.exactly_eq_none hlonger]
    rfl

/-- One scanner after another ends where both end. -/
theorem endsAt_bind {scan : Scanner α} {next : α → Scanner β} (hscan : EndsAt c scan)
    (hnext : ∀ value, EndsAt c (next value)) : EndsAt c (scan >>= next) := by
  intro text rest
  rw [Scanner.bind_apply, Scanner.bind_apply, hscan]
  cases scan text with
  | none => rfl
  | some found => exact hnext found.1 found.2 rest

/-- A scanner that reads nothing ends where it starts. -/
theorem endsAt_pure (value : α) : EndsAt c (pure value : Scanner α) := fun _ _ => rfl

/-- A return type ends at the brace that opens the body. -/
theorem endsAt_returnType : EndsAt '\x7b' returnType := by
  refine endsAt_bind (endsAt_run (by decide)) fun lead => ?_
  refine endsAt_bind (endsAt_exactly (by decide)) fun _ => ?_
  refine endsAt_bind (endsAt_run1 (by decide)) fun type => ?_
  exact endsAt_pure _

end EndsAt

/-- The characters of a return type behind its colon. -/
def inType (c : Char) : Bool := c != '\x7b' && c != ';'

/-- A text that goes on with another character than a colon behind its blanks has no return type. -/
theorem returnType_eq_none {text : List Char}
    (htext : Stops (· == ':') (text.dropWhile isBlank)) : returnType text = none := by
  have hcolon : Scanner.exactly ":" (text.dropWhile isBlank) = none :=
    Scanner.exactly_eq_none_of_stops rfl htext
  simp only [returnType, Scanner.blanks, Scanner.run, Scanner.bind_apply, Option.bind_some, hcolon,
    Option.bind_none]

/-- A return type is what stands behind a colon up to a brace or a semicolon, with the blanks before
the colon. -/
theorem returnType_colon {lead behind : List Char} (hlead : ∀ c ∈ lead, isBlank c = true) :
    returnType (lead ++ ':' :: behind) =
      (Scanner.run1 inType behind).map fun found => (lead ++ ':' :: found.1, found.2) := by
  have hblanks : Scanner.blanks (lead ++ ':' :: behind) = some (lead, ':' :: behind) :=
    Scanner.run_append hlead (stops_cons.mpr (by decide))
  have hcolon : Scanner.exactly ":" (':' :: behind) = some ((), behind) :=
    Scanner.exactly_append ":" behind
  have hinType : (fun c => c != '\x7b' && c != ';') = inType := rfl
  simp only [returnType, hinType, Scanner.bind_apply, hblanks, hcolon, Option.bind_some,
    Scanner.pure_apply]
  rw [Option.map_eq_bind]
  rfl

/-- The return type at the start of a text, empty if there is none, and the rest. -/
def typeSplit (text : List Char) : List Char × List Char := (returnType text).getD ([], text)

/-- A text starts with a colon behind its blanks, or it has none there. -/
theorem colon_or_stops (text : List Char) :
    (∃ lead type, text = lead ++ ':' :: type ∧ ∀ c ∈ lead, isBlank c = true) ∨
      Stops (· == ':') (text.dropWhile isBlank) := by
  by_cases hcolon : ∃ type, text.dropWhile isBlank = ':' :: type
  · obtain ⟨type, htype⟩ := hcolon
    refine .inl ⟨text.takeWhile isBlank, type, ?_, fun c hc => List.mem_takeWhile_imp hc⟩
    rw [← htype, List.takeWhile_append_dropWhile]
  · refine .inr fun c hc => ?_
    rw [beq_eq_false_iff_ne]
    rintro rfl
    exact hcolon (List.head?_eq_some_iff.mp hc)

/-- A text that has no colon behind its blanks is kept. -/
theorem typeSplit_of_stops {text : List Char}
    (htext : Stops (· == ':') (text.dropWhile isBlank)) : typeSplit text = ([], text) := by
  rw [typeSplit, returnType_eq_none htext]
  rfl

/-- A text is the return type at its start and the rest. -/
theorem typeSplit_append (text : List Char) : (typeSplit text).1 ++ (typeSplit text).2 = text := by
  obtain ⟨lead, type, rfl, hlead⟩ | hstops := colon_or_stops text
  · rw [typeSplit, returnType_colon hlead, Scanner.run1]
    have hrest : type.takeWhile inType ++ type.dropWhile inType = type :=
      List.takeWhile_append_dropWhile
    cases hread : type.takeWhile inType with
    | nil => rfl
    | cons c read =>
      rw [hread] at hrest
      simp [hrest]
  · rw [typeSplit_of_stops hstops]
    rfl

/-- What stands behind the first closing parenthesis of a header, given its parameters and what
stands behind these. -/
def behindFirst (params behind : List Char) : List Char :=
  (params.dropWhile (· != ')') ++ ')' :: behind).tail

/-- What is recorded of a header as the signature. -/
def recordedSignature (params behind : List Char) : List Char :=
  '(' :: (params.takeWhile (· != ')') ++ ')' :: (typeSplit (behindFirst params behind)).1)

/-- Behind the parameters up to the first closing parenthesis stands that parenthesis. -/
theorem dropWhile_append_cons (params behind : List Char) :
    params.dropWhile (· != ')') ++ ')' :: behind = ')' :: behindFirst params behind := by
  rw [behindFirst]
  cases hdrop : params.dropWhile (· != ')') with
  | nil => rfl
  | cons c left =>
    have hc := List.head?_dropWhile_not (· != ')') params
    rw [hdrop] at hc
    simp at hc
    rw [hc]
    rfl

/-- What stands behind the first closing parenthesis goes on with what follows the header. -/
theorem behindFirst_append (params behind rest : List Char) :
    behindFirst params (behind ++ rest) = behindFirst params behind ++ rest := by
  have hlonger := dropWhile_append_cons params (behind ++ rest)
  rw [← List.cons_append, ← List.append_assoc, dropWhile_append_cons, List.cons_append,
    List.cons.injEq] at hlonger
  exact hlonger.2.symm

/-- A signature is read as it is recorded, whatever the body. -/
theorem signature_apply (params behind rest : List Char) :
    signature ('(' :: (params ++ ')' :: (behind ++ '\x7b' :: rest))) =
      some (recordedSignature params behind,
        (typeSplit (behindFirst params behind)).2 ++ '\x7b' :: rest) := by
  have hopen : Scanner.exactly "(" ('(' :: (params ++ ')' :: (behind ++ '\x7b' :: rest))) =
      some ((), params ++ ')' :: (behind ++ '\x7b' :: rest)) := Scanner.exactly_append "(" _
  have hinside : Scanner.run (· != ')') (params ++ ')' :: (behind ++ '\x7b' :: rest)) =
      some (params.takeWhile (· != ')'),
        ')' :: (behindFirst params behind ++ '\x7b' :: rest)) := by
    rw [endsAt_run (by decide), Scanner.run, Option.map_some, dropWhile_append_cons,
      behindFirst_append]
  have hclose : Scanner.exactly ")" (')' :: (behindFirst params behind ++ '\x7b' :: rest)) =
      some ((), behindFirst params behind ++ '\x7b' :: rest) := Scanner.exactly_append ")" _
  have htype : orNothing returnType (behindFirst params behind ++ '\x7b' :: rest) =
      some ((typeSplit (behindFirst params behind)).1,
        (typeSplit (behindFirst params behind)).2 ++ '\x7b' :: rest) := by
    rw [orNothing, endsAt_returnType, typeSplit]
    cases returnType (behindFirst params behind) <;> rfl
  simp only [signature, Scanner.bind_apply, hopen, hinside, hclose, htype, Option.bind_some,
    Scanner.pure_apply]
  rfl

/-- What is recorded stands at the start of the header. -/
theorem recordedSignature_append (params behind : List Char) :
    recordedSignature params behind ++ (typeSplit (behindFirst params behind)).2 =
      '(' :: (params ++ ')' :: behind) := by
  rw [recordedSignature, List.cons_append, List.append_assoc, List.cons_append, typeSplit_append,
    ← dropWhile_append_cons, ← List.append_assoc, List.takeWhile_append_dropWhile]

namespace Declaration

/-- The symbol that is recorded for a declaration. -/
def recorded (layout : Layout) : Declaration → ExportedSymbol
  | function isDefault _ name params returns _ =>
    Export.symbol name.chars .function
      (some (recordedSignature params.chars (behindParams layout returns))) isDefault
  | d => d.symbol

/-- What one pass records of a declaration. -/
def onPass (layout : Layout) (number : ℕ) (d : Declaration) : List ExportedSymbol :=
  if d.passNumber = number then [d.recorded layout] else []

end Declaration

end ChangeImpact.Export
