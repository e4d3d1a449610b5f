import ChangeImpact.Export.Signature
import ChangeImpact.Proofs.CollapsedText

/-!
# Signatures as they are written

A signature is written as parameters in parentheses, separated by commas, and perhaps a return type
behind a colon. A parameter is a name with marks and a type. Types nest their brackets and have
commas only inside of them, so that three scans find the parts again: the one for the closing
parenthesis, the one for the commas, and the one for the colon of a parameter.
-/

namespace ChangeImpact

open Text

namespace Signature

/-! ### Nested texts -/

/-- Opening brackets, each with the one that closes it. -/
def brackets : List (Char × Char) := [('<', '>'), ('(', ')'), ('[', ']'), ('\x7b', '\x7d')]

/-- Whether a character closes a bracket, given the one before it. The `>` of an arrow does not. -/
def closesBracket (previous : Option Char) (c : Char) : Bool :=
  (brackets.map Prod.snd).contains c && !(c == '>' && previous == some '=')

/-- Whether a text closes all brackets in the order in which they were opened and has no comma
outside of them. The brackets in `due` are to be closed first, and `previous` is the character in
front of the text. -/
def nests (due : List Char) (previous : Option Char) : List Char → Bool
  | [] => due.isEmpty
  | c :: rest =>
    match brackets.lookup c with
    | some closer => nests (closer :: due) (some c) rest
    | none =>
      if closesBracket previous c then due.head? == some c && nests due.tail (some c) rest
      else (c != ',' || !due.isEmpty) && nests due (some c) rest

example : nests [] none "Map<string, (e: E) => \x7b a: A \x7d>".toList = true := by decide

/-- A character that neither opens nor closes a bracket and is no comma. -/
def isUnmarked (c : Char) : Bool := !isOpener c && !isCloser c && c != ','

/-- The last character of a text, or the one in front of it if it is empty. -/
def lastOr (previous : Option Char) (text : List Char) : Option Char := text.getLast?.or previous

variable {c closer : Char} {previous other : Option Char} {due text lead rest current : List Char}

/-- The last character is looked for behind the first. -/
@[simp] theorem lastOr_cons (previous : Option Char) (c : Char) (rest : List Char) :
    lastOr previous (c :: rest) = lastOr (some c) rest := by
  cases rest with
  | nil => rfl
  | cons d rest => simp [lastOr, List.getLast?_cons]

/-- An opening bracket is no other mark, and the parenthesis is closed by the parenthesis. -/
theorem of_lookup_eq_some (hc : brackets.lookup c = some closer) :
    isOpener c = true ∧ c ≠ ',' ∧ c ≠ ')' ∧ (c = '(' ↔ closer = ')') := by
  obtain ⟨front, back, hsplit, -⟩ := List.lookup_eq_some_iff.mp hc
  have hpairs : ∀ pair ∈ brackets, isOpener pair.1 = true ∧ pair.1 ≠ ',' ∧ pair.1 ≠ ')' ∧
      (pair.1 = '(' ↔ pair.2 = ')') := by decide
  exact hpairs (c, closer) (by simp [hsplit])

/-- What is no opening bracket adds no nesting. -/
theorem isOpener_of_lookup_eq_none (hc : brackets.lookup c = none) : isOpener c = false := by
  have hothers := List.lookup_eq_none_iff.mp hc
  simpa [brackets, isOpener, and_assoc] using hothers

/-- The brackets with a partner are the opening ones. -/
theorem isSome_lookup (c : Char) : (brackets.lookup c).isSome = isOpener c := by
  cases hc : brackets.lookup c with
  | none => rw [isOpener_of_lookup_eq_none hc, Option.isSome_none]
  | some closer => rw [(of_lookup_eq_some hc).1, Option.isSome_some]

/-- The partners are the closing brackets. -/
theorem contains_closers (c : Char) : (brackets.map Prod.snd).contains c = isCloser c := by
  rw [Bool.eq_iff_iff, List.contains_iff_mem]
  simp [brackets, isCloser, or_assoc]

/-- The character that closes a bracket takes away one level of nesting, and others none. -/
theorem nesting_of_lookup_eq_none (hc : brackets.lookup c = none) :
    nesting previous c = if closesBracket previous c then -1 else 0 := by
  rw [nesting, isOpener_of_lookup_eq_none hc, closesBracket, contains_closers]
  rfl

/-- What one character of a nested text does to the brackets that are due: it changes their number
by its nesting, and that of the parentheses among them if it is one. It is no comma outside of all
brackets. -/
theorem exists_due_of_nests (htext : nests due previous (c :: text) = true) :
    ∃ due', nests due' (some c) text = true ∧
      (due.length : Int) + nesting previous c = due'.length ∧
      due.count ')' + (if c = '(' then 1 else 0) = due'.count ')' + (if c = ')' then 1 else 0) ∧
      ¬ (c = ',' ∧ due = []) := by
  rw [nests] at htext
  cases hc : brackets.lookup c with
  | some closer =>
    obtain ⟨hopener, hcomma, hclose, hparenthesis⟩ := of_lookup_eq_some hc
    simp only [hc] at htext
    refine ⟨closer :: due, htext, by simp [nesting, hopener], ?_, fun h => hcomma h.1⟩
    simp [List.count_cons, hclose, hparenthesis]
  | none =>
    have hnesting : nesting previous c = _ := nesting_of_lookup_eq_none hc
    have hopen : c ≠ '(' := by
      rintro rfl
      cases hc
    simp only [hc] at htext
    split_ifs at htext hnesting with hcloses
    · rw [Bool.and_eq_true, beq_iff_eq] at htext
      obtain ⟨due, rfl⟩ := List.head?_eq_some_iff.mp htext.1
      have hdepth : ((c :: due).length : Int) + nesting previous c = due.length := by
        rw [hnesting, List.length_cons]
        omega
      exact ⟨due, htext.2, hdepth, by simp [List.count_cons, hopen], by simp⟩
    · rw [Bool.and_eq_true, Bool.or_eq_true, bne_iff_ne, Bool.not_eq_true',
        List.isEmpty_eq_false_iff] at htext
      have hclose : c ≠ ')' := by
        rintro rfl
        exact hcloses (by simp [closesBracket, brackets])
      refine ⟨due, htext.2, by simp [hnesting], by simp [hopen, hclose], fun h => ?_⟩
      exact htext.1.elim (· h.1) (· h.2)

/-- Only an equals sign in front of a text matters to its nesting. -/
theorem nests_congr (hsame : previous = some '=' ↔ other = some '=') (due text : List Char) :
    nests due previous text = nests due other text := by
  cases text with
  | nil => rfl
  | cons c rest =>
    have hcloses : closesBracket previous c = closesBracket other c := by
      have hbeq : (previous == some '=') = (other == some '=') := by
        rw [Bool.eq_iff_iff, beq_iff_eq, beq_iff_eq, hsame]
      rw [closesBracket, closesBracket, hbeq]
    rw [nests, nests, hcloses]

/-- The cut at the commas passes over a nested text. -/
theorem splitFrom_append (htext : nests due previous text = true) (current rest : List Char) :
    splitFrom due.length previous current (text ++ rest) =
      splitFrom 0 (lastOr previous text) (text.reverse ++ current) rest := by
  induction text generalizing due previous current with
  | nil =>
    rw [nests, List.isEmpty_iff] at htext
    rw [htext]
    rfl
  | cons c text ih =>
    -- The depth of the scan is the number of brackets that are due, and no comma stands at depth 0.
    obtain ⟨due', hrest, hdepth, -, hcomma⟩ := exists_due_of_nests htext
    have hcut : ¬ (decide (c = ',') && decide ((due.length : Int) = 0)) = true := by
      simpa using hcomma
    have hreverse : (c :: text).reverse ++ current = text.reverse ++ c :: current := by simp
    rw [List.cons_append, splitFrom, if_neg hcut, hdepth, ih hrest, hreverse, lastOr_cons]

/-- The search for the closing parenthesis passes over a nested text. -/
theorem closing?_append (htext : nests due previous text = true) {depth : Nat} (hdepth : 0 < depth)
    (rest : List Char) :
    closing? (depth + due.count ')') (text ++ rest) =
      (closing? depth rest).map fun found => (text ++ found.1, found.2) := by
  induction text generalizing due previous with
  | nil =>
    rw [nests, List.isEmpty_iff] at htext
    have hdue : (depth : Int) + ([].count ')' : Nat) = depth := by simp
    rw [htext, hdue, List.nil_append]
    cases closing? (depth : Int) rest <;> rfl
  | cons c text ih =>
    -- The scan counts the parentheses that are due on top of `depth`, which stays positive. So it
    -- does not end inside of the text.
    obtain ⟨due', hrest, -, hcount, -⟩ := exists_due_of_nests htext
    have hnext : (if c = '(' then (depth : Int) + due.count ')' + 1
        else if c = ')' then (depth : Int) + due.count ')' - 1
        else (depth : Int) + due.count ')') = depth + due'.count ')' := by
      by_cases hleft : c = '('
      · have hright : '(' ≠ ')' := by decide
        simp only [hleft, hright, if_true, if_false] at hcount ⊢
        omega
      · simp only [hleft, if_false] at hcount ⊢
        split_ifs at hcount ⊢ <;> omega
    have hopen : (depth : Int) + due'.count ')' ≠ 0 := by omega
    rw [List.cons_append, closing?]
    simp only [hnext, hopen, decide_false, Bool.and_false, Bool.false_eq_true, if_false, ih hrest,
      Option.map_map]
    rfl

/-- An unmarked character is neither a bracket nor a comma. -/
theorem isUnmarked_iff : isUnmarked c = true ↔
    isOpener c = false ∧ isCloser c = false ∧ c ≠ ',' := by
  simp [isUnmarked, and_assoc]

/-- An unmarked character changes no nesting. -/
theorem nesting_of_isUnmarked (hc : isUnmarked c = true) : nesting previous c = 0 := by
  obtain ⟨hopener, hcloser, -⟩ := isUnmarked_iff.mp hc
  simp [nesting, hopener, hcloser]

/-- Unmarked characters in front of a text do not change its nesting. -/
theorem nests_append_of_isUnmarked (hlead : ∀ c ∈ lead, isUnmarked c = true) (text : List Char) :
    nests [] previous (lead ++ text) = nests [] (lastOr previous lead) text := by
  induction lead generalizing previous with
  | nil => rfl
  | cons c lead ih =>
    rw [List.forall_mem_cons] at hlead
    obtain ⟨hopener, hcloser, hcomma⟩ := isUnmarked_iff.mp hlead.1
    have hlookup : brackets.lookup c = none := by
      rw [← Option.not_isSome_iff_eq_none, isSome_lookup, hopener]
      decide
    have hcloses : closesBracket previous c = false := by
      rw [closesBracket, contains_closers, hcloser, Bool.false_and]
    rw [List.cons_append, nests, hlookup]
    simp only [hcloses, bne_iff_ne.mpr hcomma, Bool.false_eq_true, if_false, Bool.true_or,
      Bool.true_and]
    rw [ih hlead.2, lastOr_cons]

/-- The first colon is found behind unmarked characters. -/
theorem afterColon?_append (hlead : ∀ c ∈ lead, isUnmarked c = true) (hcolon : ':' ∉ lead)
    (rest : List Char) : afterColon? 0 previous (lead ++ ':' :: rest) = some rest := by
  induction lead generalizing previous with
  | nil => rfl
  | cons c lead ih =>
    rw [List.forall_mem_cons] at hlead
    rw [List.mem_cons, not_or] at hcolon
    have hpass : ¬ (decide (c = ':') && decide ((0 : Int) = 0)) = true := by
      simpa using Ne.symm hcolon.1
    rw [List.cons_append, afterColon?, if_neg hpass, nesting_of_isUnmarked hlead.1, Int.add_zero,
      ih hlead.2 hcolon.2]

end Signature

/-! ### Written signatures -/

open Signature

/-- Characters of the name of a parameter. -/
def isNameChar (c : Char) : Bool := isWord c || c == '$'

/-- The name of a parameter. -/
structure ParamName where
  chars : List Char
  chars_ne_nil : chars ≠ []
  isNameChar_of_mem : ∀ c ∈ chars, isNameChar c = true

/-- The type of a parameter: a collapsed text with its brackets nested and its commas inside of
them. -/
structure ParamType where
  chars : List Char
  chars_ne_nil : chars ≠ []
  isCollapsed : IsCollapsed chars
  nests : Signature.nests [] none chars = true

/-- The type that a function returns: a collapsed text. -/
structure ReturnType where
  chars : List Char
  chars_ne_nil : chars ≠ []
  isCollapsed : IsCollapsed chars

/-- A parameter, perhaps one that takes the remaining arguments or one that may be left out. -/
structure WrittenParam where
  isRest : Bool
  name : ParamName
  isOptional : Bool
  type : ParamType

/-- A signature in its written parts. -/
structure WrittenSignature where
  params : List WrittenParam
  returns : Option ReturnType

namespace WrittenParam

/-- The name with its marks. -/
def lead (p : WrittenParam) : List Char :=
  (if p.isRest then "...".toList else []) ++ (p.name.chars ++ if p.isOptional then ['?'] else [])

/-- The parameter as it is written. -/
def text (p : WrittenParam) : List Char := p.lead ++ ':' :: ' ' :: p.type.chars

end WrittenParam

/-- Parameters as they are written. -/
def paramsText (params : List WrittenParam) : List Char :=
  ", ".toList.intercalate (params.map WrittenParam.text)

namespace WrittenSignature

/-- The return type as it is written behind the parentheses. -/
def returnText (s : WrittenSignature) : List Char :=
  (s.returns.map fun type => ':' :: ' ' :: type.chars).getD []

/-- The signature as it is written. -/
def text (s : WrittenSignature) : List Char := '(' :: (paramsText s.params ++ ')' :: s.returnText)

end WrittenSignature

section Names

variable {c : Char}

/-- Characters of names are no marks. -/
theorem ne_of_isNameChar (hc : isNameChar c = true) :
    ∀ mark ∈ "<([\x7b>)]\x7d,:.?".toList, c ≠ mark := by
  have hmarks : ∀ mark ∈ "<([\x7b>)]\x7d,:.?".toList, isNameChar mark = false := by decide +kernel
  rintro mark hmark rfl
  rw [hmarks c hmark] at hc
  cases hc

/-- The characters of names are unmarked. -/
theorem isUnmarked_of_isNameChar (hc : isNameChar c = true) : isUnmarked c = true := by
  have hmarks := ne_of_isNameChar hc
  simp only [String.reduceToList, List.forall_mem_cons] at hmarks
  simp [isUnmarked, isOpener, isCloser, hmarks]

/-- The characters of names are not blank. -/
theorem isBlank_of_isNameChar (hc : isNameChar c = true) : isBlank c = false := by
  rw [isNameChar, Bool.or_eq_true, beq_iff_eq] at hc
  obtain hword | rfl := hc
  · exact isBlank_of_isWord hword
  · decide

end Names

namespace WrittenParam

variable (p : WrittenParam)

/-- What holds of the marks and of the characters of names holds of a name with its marks. -/
theorem forall_mem_lead {q : Char → Prop} (hmarks : q '.' ∧ q '?')
    (hname : ∀ c, isNameChar c = true → q c) : ∀ c ∈ p.lead, q c := by
  rw [lead, List.forall_mem_append, List.forall_mem_append]
  refine ⟨?_, fun c hc => hname c (p.name.isNameChar_of_mem c hc), ?_⟩
  · split_ifs
    · simpa using hmarks.1
    · exact List.forall_mem_nil _
  · split_ifs
    · simpa using hmarks.2
    · exact List.forall_mem_nil _

/-- A name with its marks has no bracket and no comma. -/
theorem isUnmarked_of_mem_lead : ∀ c ∈ p.lead, isUnmarked c = true :=
  p.forall_mem_lead (by decide) fun _ => isUnmarked_of_isNameChar

/-- A name with its marks has no colon. -/
theorem colon_not_mem_lead : ':' ∉ p.lead := by
  have hcolon := p.forall_mem_lead (q := (· ≠ ':')) (by decide)
    fun c hc => ne_of_isNameChar hc ':' (by decide)
  exact fun hmem => hcolon ':' hmem rfl

/-- A written parameter is collapsed. -/
theorem isCollapsed_text : IsCollapsed p.text := by
  have hlead : IsCollapsed (p.lead ++ [':']) := isCollapsed_of_not_isBlank <|
    List.forall_mem_append.mpr ⟨p.forall_mem_lead (by decide) fun _ => isBlank_of_isNameChar,
      by decide⟩
  have htext := hlead.append_space p.type.isCollapsed (by simp) p.type.chars_ne_nil
  rwa [List.append_assoc, List.singleton_append] at htext

/-- A written parameter is not empty. -/
theorem text_ne_nil : p.text ≠ [] := by simp [text]

/-- A written parameter nests its brackets and has no comma outside of them. -/
theorem nests_text (previous : Option Char) : nests [] previous p.text = true := by
  have hlead : ∀ c ∈ p.lead ++ [':', ' '], isUnmarked c = true :=
    List.forall_mem_append.mpr ⟨p.isUnmarked_of_mem_lead, by decide⟩
  have hlast : lastOr previous (p.lead ++ [':', ' ']) = some ' ' := by simp [lastOr]
  have htype : nests [] (some ' ') p.type.chars = nests [] none p.type.chars :=
    nests_congr (by decide) [] _
  have htext : nests [] previous _ = _ := nests_append_of_isUnmarked hlead p.type.chars
  rw [hlast, htype, p.type.nests, List.append_assoc] at htext
  exact htext

end WrittenParam

end ChangeImpact
