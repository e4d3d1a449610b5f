import ChangeImpact.Git.QuotedPath
import ChangeImpact.Proofs.Scanning
import ChangeImpact.Proofs.Utf8
import ChangeImpact.Text.Lines
import Mathlib.Data.List.Chain

/-!
# Reading quoted names

A name with a double quote, a backslash or an ASCII control character is printed in double quotes,
with an escape for each of these characters and all others as they are; any other name is printed
without quotes. What is printed for a character is read as the bytes of the character, in front of
any further text. No control character is printed, and inside of the quotes each further quote has a
backslash before it, so that a name that is cut off has no end.
-/

namespace ChangeImpact.Git

open Text

/-- ASCII control characters. -/
def isControl (c : Char) : Bool := c.toNat < 32 || c.toNat = 127

/-- Characters that are printed as an escape. -/
def isSpecial (c : Char) : Bool := c = '"' || c = '\\' || isControl c

/-- The character behind the backslash, for special characters that have one of their own. -/
def escapeLetter? (c : Char) : Option Char :=
  match c.toNat with
  | 7 => some 'a'
  | 8 => some 'b'
  | 9 => some 't'
  | 10 => some 'n'
  | 11 => some 'v'
  | 12 => some 'f'
  | 13 => some 'r'
  | 34 => some '"'
  | 92 => some '\\'
  | _ => none

/-- Three octal digits. -/
def octalDigits (n : ℕ) : List Char :=
  [Nat.digitChar (n / 64), Nat.digitChar (n / 8 % 8), Nat.digitChar (n % 8)]

/-- How a character is printed inside of quotes. -/
def escape (c : Char) : List Char :=
  if isSpecial c then '\\' :: ((escapeLetter? c).map ([·])).getD (octalDigits c.toNat) else [c]

/-- How the characters of a name are printed inside of quotes. -/
def escaped (name : List Char) : List Char := name.flatMap escape

/-- Whether a name is printed in quotes. -/
def isQuoted (name : List Char) : Bool := name.any isSpecial

/-- How a name is printed. -/
def printedName (name : List Char) : List Char :=
  if isQuoted name then '"' :: (escaped name ++ ['"']) else name

/-- Special characters are ASCII. -/
theorem toNat_lt_of_isSpecial {c : Char} (hc : isSpecial c = true) : c.toNat < 128 := by
  simp only [isSpecial, isControl, Bool.or_eq_true, decide_eq_true_eq] at hc
  obtain (rfl | rfl) | hcontrol | hcontrol := hc
  · decide
  · decide
  · omega
  · omega

/-- What holds of all ASCII characters holds of the special ones. -/
theorem of_isSpecial {p : Char → Prop} {c : Char} (hc : isSpecial c = true)
    (hp : ∀ n < 128, p (Char.ofNat n)) : p c := by
  have hascii := hp c.toNat (toNat_lt_of_isSpecial hc)
  rwa [Char.ofNat_toNat] at hascii

/-! ### Reading escapes -/

/-- The bytes that a backslash and a character that is no octal digit stand for. -/
def letterBytes (c : Char) : Bytes :=
  match controlByte? c with
  | some byte => [byte]
  | none => String.utf8EncodeChar c

/-- A character other than a backslash stands for itself. -/
theorem unescapeFrom_plain {c : Char} (hc : c ≠ '\\') (rest : List Char) :
    unescapeFrom 0 (c :: rest) = (unescapeFrom 0 rest).map (String.utf8EncodeChar c ++ ·) := by
  rw [unescapeFrom]
  rintro d more rfl
  exact absurd rfl hc

/-- An escape of one character is read. -/
theorem unescapeFrom_letter {c : Char} (hc : octalValue? c = none) (rest : List Char) :
    unescapeFrom 0 ('\\' :: c :: rest) = (unescapeFrom 0 rest).map (letterBytes c ++ ·) := by
  have hskip : unescapeFrom 1 (c :: rest) = unescapeFrom 0 rest := by rw [unescapeFrom]
  have hoctal (d e : Char) : octal3? c d e = none := by rw [octal3?, hc]; rfl
  have hsingle : unescapeFrom 0 ('\\' :: c :: rest) =
      (unescapeFrom 1 (c :: rest)).map fun bytes => letterBytes c ++ bytes := by
    match rest with
    | d :: e :: more =>
      conv_lhs => rw [unescapeFrom, hoctal]
      rfl
    | [d] => rfl
    | [] => rfl
  rw [hsingle, hskip]

/-- An escape of three octal digits is read. -/
theorem unescapeFrom_octal {a b c : Char} {n : ℕ} (hn : n < 256) (hoctal : octal3? a b c = some n)
    (rest : List Char) :
    unescapeFrom 0 ('\\' :: a :: b :: c :: rest) =
      (unescapeFrom 0 rest).map (UInt8.ofNat n :: ·) := by
  have hskip : unescapeFrom 3 (a :: b :: c :: rest) = unescapeFrom 0 rest := by
    simp only [unescapeFrom]
  rw [unescapeFrom]
  simp only [hoctal, hn, if_true, hskip]

/-- An escape of one character cannot be taken for an octal one, and stands for the character. -/
theorem all_escapeLetter? : ∀ n < 128, (escapeLetter? (Char.ofNat n)).all (fun letter =>
    letter ≠ '\n' && octalValue? letter = none &&
      letterBytes letter = String.utf8EncodeChar (Char.ofNat n)) = true := by
  decide

/-- What is read of an escape of one character. -/
theorem escapeLetter?_spec {c letter : Char} (hc : isSpecial c = true)
    (hletter : escapeLetter? c = some letter) :
    letter ≠ '\n' ∧ octalValue? letter = none ∧ letterBytes letter = String.utf8EncodeChar c := by
  have hspec := all_escapeLetter? c.toNat (toNat_lt_of_isSpecial hc)
  rw [Char.ofNat_toNat, hletter, Option.all_some, Bool.and_eq_true, Bool.and_eq_true] at hspec
  simpa [and_assoc] using hspec

/-- The value of an octal digit is read back. -/
theorem octalValue?_digitChar : ∀ d < 8, octalValue? (Nat.digitChar d) = some d := by decide

/-- A byte that is printed as octal digits is read back. -/
theorem unescapeFrom_octalDigits {n : ℕ} (hn : n < 256) (rest : List Char) :
    unescapeFrom 0 ('\\' :: (octalDigits n ++ rest)) =
      (unescapeFrom 0 rest).map (UInt8.ofNat n :: ·) := by
  have hhigh := octalValue?_digitChar (n / 64) (by omega)
  have hmiddle := octalValue?_digitChar (n / 8 % 8) (by omega)
  have hlow := octalValue?_digitChar (n % 8) (by omega)
  refine unescapeFrom_octal hn ?_ rest
  simp only [octal3?, hhigh, hmiddle, hlow, Option.bind_eq_bind, Option.bind_some, Option.pure_def,
    Option.some.injEq]
  omega

/-- An ASCII character is its own byte. -/
theorem utf8EncodeChar_ascii :
    ∀ n < 128, [UInt8.ofNat n] = String.utf8EncodeChar (Char.ofNat n) := by
  decide

/-- What is printed for a character is read as its bytes. -/
theorem unescapeFrom_escape (c : Char) (rest : List Char) :
    unescapeFrom 0 (escape c ++ rest) =
      (unescapeFrom 0 rest).map (String.utf8EncodeChar c ++ ·) := by
  rw [escape]
  split_ifs with hc
  · have hascii := toNat_lt_of_isSpecial hc
    cases hletter : escapeLetter? c with
    | some letter =>
      obtain ⟨-, hoctal, hbytes⟩ := escapeLetter?_spec hc hletter
      rw [← hbytes]
      exact unescapeFrom_letter hoctal rest
    | none =>
      have hbytes := utf8EncodeChar_ascii c.toNat hascii
      rw [Char.ofNat_toNat] at hbytes
      rw [← hbytes]
      exact unescapeFrom_octalDigits (by omega) rest
  · refine unescapeFrom_plain ?_ rest
    rintro rfl
    exact hc rfl

/-- Forms that are read one by one are read one after the other. -/
theorem unescapeFrom_flatMap {α : Type} {form : α → List Char} {bytes : α → Bytes}
    (hform : ∀ a rest, unescapeFrom 0 (form a ++ rest) = (unescapeFrom 0 rest).map (bytes a ++ ·))
    (items : List α) (rest : List Char) :
    unescapeFrom 0 (items.flatMap form ++ rest) =
      (unescapeFrom 0 rest).map (items.flatMap bytes ++ ·) := by
  induction items with
  | nil => simp
  | cons a items ih =>
    rw [List.flatMap_cons, List.append_assoc, hform, ih, Option.map_map]
    simp [Function.comp_def]

/-! ### The end of the quotes -/

/-- A character that is neither a quote nor a backslash stands inside of the quotes. -/
theorem quotedInside?_plain {c : Char} (hquote : c ≠ '"') (hbackslash : c ≠ '\\')
    (rest : List Char) : quotedInside? (c :: rest) = (quotedInside? rest).map (c :: ·) := by
  rw [quotedInside?] <;> simp [hquote, hbackslash]

/-- A character behind a backslash stands inside of the quotes. -/
theorem quotedInside?_backslash {c : Char} (hnewline : c ≠ '\n') (rest : List Char) :
    quotedInside? ('\\' :: c :: rest) = (quotedInside? rest).map ('\\' :: c :: ·) := by
  rw [quotedInside?, if_neg hnewline]

/-- Octal digits are neither quotes, backslashes nor newlines. -/
theorem digitChar_mark_free : ∀ d < 8,
    Nat.digitChar d ≠ '"' ∧ Nat.digitChar d ≠ '\\' ∧ Nat.digitChar d ≠ '\n' := by
  decide

/-- A byte that is printed as octal digits does not end the quotes. -/
theorem quotedInside?_octalDigits {n : ℕ} (hn : n < 256) (rest : List Char) :
    quotedInside? ('\\' :: (octalDigits n ++ rest)) =
      (quotedInside? rest).map ('\\' :: octalDigits n ++ ·) := by
  obtain ⟨-, -, hnewline⟩ := digitChar_mark_free (n / 64) (by omega)
  obtain ⟨hquote, hbackslash, -⟩ := digitChar_mark_free (n / 8 % 8) (by omega)
  obtain ⟨hquote', hbackslash', -⟩ := digitChar_mark_free (n % 8) (by omega)
  simp only [octalDigits, List.cons_append, List.nil_append]
  rw [quotedInside?_backslash hnewline, quotedInside?_plain hquote hbackslash,
    quotedInside?_plain hquote' hbackslash', Option.map_map, Option.map_map]
  rfl

/-- What is printed for a character does not end the quotes. -/
theorem quotedInside?_escape (c : Char) (rest : List Char) :
    quotedInside? (escape c ++ rest) = (quotedInside? rest).map (escape c ++ ·) := by
  rw [escape]
  split_ifs with hc
  · cases hletter : escapeLetter? c with
    | some letter => exact quotedInside?_backslash (escapeLetter?_spec hc hletter).1 rest
    | none =>
      have hascii := toNat_lt_of_isSpecial hc
      exact quotedInside?_octalDigits (by omega) rest
  · have hquote : c ≠ '"' := by
      rintro rfl
      exact hc rfl
    have hbackslash : c ≠ '\\' := by
      rintro rfl
      exact hc rfl
    exact quotedInside?_plain hquote hbackslash rest

/-- Forms that do not end the quotes one by one do not end them one after the other. -/
theorem quotedInside?_flatMap {α : Type} {form : α → List Char}
    (hform : ∀ a rest, quotedInside? (form a ++ rest) = (quotedInside? rest).map (form a ++ ·))
    (items : List α) (rest : List Char) :
    quotedInside? (items.flatMap form ++ rest) =
      (quotedInside? rest).map (items.flatMap form ++ ·) := by
  induction items with
  | nil => simp
  | cons a items ih =>
    rw [List.flatMap_cons, List.append_assoc, hform, ih, Option.map_map]
    simp [Function.comp_def]

/-- The inside of the quotes goes on behind a name. -/
theorem quotedInside?_escaped (name rest : List Char) :
    quotedInside? (escaped name ++ rest) = (quotedInside? rest).map (escaped name ++ ·) :=
  quotedInside?_flatMap quotedInside?_escape name rest

/-- A text that does not start with a quote is read as itself. -/
theorem unquote_eq_self {text : List Char} (htext : text.head? ≠ some '"') :
    unquote (String.ofList text) = some (String.ofList text) := by
  rw [unquote, String.toList_ofList]
  split
  · exact absurd rfl htext
  · rfl

/-- A name that is printed without quotes has no special characters. -/
theorem isSpecial_eq_false {name : List Char} (hname : isQuoted name = false) {c : Char}
    (hc : c ∈ name) : isSpecial c = false := by
  rw [isQuoted, List.any_eq_false] at hname
  exact Bool.eq_false_iff.mpr (hname c hc)

/-- There is no quote in a name that is printed without quotes. -/
theorem quote_not_mem {name : List Char} (hname : isQuoted name = false) : '"' ∉ name :=
  fun hmem => absurd (isSpecial_eq_false hname hmem) (by decide)

/-- A name that is cut off inside of its quotes is read as it stands. -/
theorem unquote_unclosed (name : List Char) :
    unquote (String.ofList ('"' :: escaped name)) = some (String.ofList ('"' :: escaped name)) := by
  have hinside : quotedInside? (escaped name) = none := by
    have hopen := quotedInside?_escaped name []
    rwa [List.append_nil, quotedInside?] at hopen
  rw [unquote, String.toList_ofList]
  simp only [hinside]

/-! ### Characters of printed names -/

/-- A character that is not special is printed as it is. -/
theorem escape_eq_self {c : Char} (hc : isSpecial c = false) : escape c = [c] := by
  rw [escape, if_neg (by simp [hc])]

/-- What is printed for a special character is neither a control character nor a line break. -/
theorem printable_of_mem_escape {c : Char} (hc : isSpecial c = true) :
    ∀ d ∈ escape c, isControl d = false ∧ isLineBreak d = false :=
  of_isSpecial (p := fun c => ∀ d ∈ escape c, isControl d = false ∧ isLineBreak d = false) hc
    (by decide)

/-- Control characters are special. -/
theorem isControl_eq_false {c : Char} (hc : isSpecial c = false) : isControl c = false := by
  simp only [isSpecial, Bool.or_eq_false_iff] at hc
  exact hc.2

/-- No control character is printed. -/
theorem isControl_of_mem_printedName {name : List Char} {c : Char} (hc : c ∈ printedName name) :
    isControl c = false := by
  rw [printedName] at hc
  split_ifs at hc with hname
  · simp only [List.mem_cons, List.mem_append, List.not_mem_nil, or_false, escaped,
      List.mem_flatMap] at hc
    obtain rfl | ⟨d, -, hescape⟩ | rfl := hc
    · decide
    · cases hd : isSpecial d with
      | true => exact (printable_of_mem_escape hd c hescape).1
      | false =>
        rw [escape_eq_self hd, List.mem_singleton] at hescape
        exact hescape ▸ isControl_eq_false hd
    · decide
  · exact isControl_eq_false (isSpecial_eq_false (Bool.eq_false_iff.mpr hname) hc)

/-- A name is printed as some text. -/
theorem printedName_ne_nil {name : List Char} (hname : name ≠ []) : printedName name ≠ [] := by
  rw [printedName]
  split_ifs
  · exact List.cons_ne_nil _ _
  · exact hname

/-- Line breaks that are printed as they are. -/
def isBareBreak (c : Char) : Bool := isLineBreak c && !isControl c

/-- A character of a name without such breaks that is printed as it is breaks no line. -/
theorem isLineBreak_eq_false_of_isSpecial {c : Char} (hbare : isBareBreak c = false)
    (hspecial : isSpecial c = false) : isLineBreak c = false := by
  rwa [isBareBreak, isControl_eq_false hspecial, Bool.not_false, Bool.and_true] at hbare

/-- Names without such breaks are printed on one line. -/
theorem isLineBreak_of_mem_escaped {name : List Char} (hname : ∀ c ∈ name, isBareBreak c = false)
    {d : Char} (hd : d ∈ escaped name) : isLineBreak d = false := by
  obtain ⟨c, hc, hescape⟩ := List.mem_flatMap.mp hd
  cases hspecial : isSpecial c with
  | true => exact (printable_of_mem_escape hspecial d hescape).2
  | false =>
    rw [escape_eq_self hspecial, List.mem_singleton] at hescape
    exact hescape ▸ isLineBreak_eq_false_of_isSpecial (hname c hc) hspecial

/-- Names without such breaks are printed on one line, with or without quotes. -/
theorem isLineBreak_of_mem_printedName {name : List Char}
    (hname : ∀ c ∈ name, isBareBreak c = false) {d : Char} (hd : d ∈ printedName name) :
    isLineBreak d = false := by
  rw [printedName] at hd
  split_ifs at hd with hquoted
  · simp only [List.mem_cons, List.mem_append, List.not_mem_nil, or_false] at hd
    obtain rfl | hd | rfl := hd
    · decide
    · exact isLineBreak_of_mem_escaped hname hd
    · decide
  · exact isLineBreak_eq_false_of_isSpecial (hname d hd)
      (isSpecial_eq_false (Bool.eq_false_iff.mpr hquoted) hd)

/-- A quote has a backslash directly before it. -/
def IsMarked (c d : Char) : Prop := d = '"' → c = '\\'

instance : DecidableRel IsMarked := fun _ _ => inferInstanceAs (Decidable (_ → _))

/-- What is printed for a character does not start with a quote and has marked quotes only. -/
theorem isChain_isMarked_escape (c : Char) :
    (escape c).head? ≠ some '"' ∧ (escape c).IsChain IsMarked := by
  cases hc : isSpecial c with
  | true =>
    exact of_isSpecial (p := fun c => (escape c).head? ≠ some '"' ∧ (escape c).IsChain IsMarked) hc
      (by decide)
  | false =>
    rw [escape_eq_self hc]
    refine ⟨?_, .singleton c⟩
    rintro ⟨⟩
    cases hc

/-- Inside of the quotes each quote has a backslash before it. -/
theorem isChain_isMarked_escaped (name : List Char) :
    (escaped name).head? ≠ some '"' ∧ (escaped name).IsChain IsMarked := by
  induction name with
  | nil => exact ⟨by simp [escaped], .nil⟩
  | cons c name ih =>
    obtain ⟨hhead, hchain⟩ := isChain_isMarked_escape c
    have hname : escaped (c :: name) = escape c ++ escaped name := rfl
    rw [hname]
    constructor
    · rw [List.head?_append]
      cases hfirst : (escape c).head? with
      | none => exact ih.1
      | some d => rwa [hfirst] at hhead
    · refine hchain.append ih.2 fun last _ next hnext hquote => ?_
      subst hquote
      exact absurd hnext ih.1

/-- No quote stands behind a space inside of the quotes. -/
theorem escaped_ne_append (name before after : List Char) :
    escaped name ≠ before ++ ' ' :: '"' :: after := by
  intro hname
  have hchain := (isChain_isMarked_escaped name).2
  rw [List.isChain_iff_forall_rel_of_append_cons_cons] at hchain
  exact absurd (hchain hname rfl) (by decide)

/-- A name with a bare break is printed on several lines. The first is read as it stands, and no
quote stands behind a space in it. -/
theorem exists_first_line {name : List Char} (hname : ∃ c ∈ name, isBareBreak c = true) :
    ∃ line mark rest, printedName name = line ++ mark :: rest ∧ mark ∈ name ∧
      isBareBreak mark = true ∧ (∀ c ∈ line, isLineBreak c = false) ∧
      unquote (String.ofList line) = some (String.ofList line) ∧
      ∀ before after, line ≠ before ++ ' ' :: '"' :: after := by
  obtain ⟨mark, hfound⟩ := Option.isSome_iff_exists.mp (List.find?_isSome.mpr hname)
  obtain ⟨hmark, front, back, rfl, hfront⟩ := List.find?_eq_some_iff_append.mp hfound
  have hbare : ∀ c ∈ front, isBareBreak c = false := fun c hc => by simpa using hfront c hc
  rw [printedName]
  split_ifs with hquoted
  · have hspecial : isSpecial mark = false := by
      rw [← Bool.not_eq_true]
      intro hspecial
      rw [of_isSpecial (p := fun c => isBareBreak c = false) hspecial (by decide)] at hmark
      cases hmark
    refine ⟨'"' :: escaped front, mark, escaped back ++ ['"'], ?_, by simp, hmark, ?_,
      unquote_unclosed front, ?_⟩
    · simp [escaped, escape_eq_self hspecial]
    · rw [List.forall_mem_cons]
      exact ⟨by decide, fun c hc => isLineBreak_of_mem_escaped hbare hc⟩
    · intro before after hline
      obtain ⟨-, hspace⟩ | ⟨before, -, hline⟩ := List.cons_eq_append_iff.mp hline
      · cases hspace
      · exact escaped_ne_append front before after hline
  · have hplain : ∀ c ∈ front, isSpecial c = false := fun c hc =>
      isSpecial_eq_false (Bool.eq_false_iff.mpr hquoted) (List.mem_append_left _ hc)
    have hfree : '"' ∉ front := fun hmem => absurd (hplain _ hmem) (by decide)
    refine ⟨front, mark, back, rfl, by simp, hmark, ?_, ?_, ?_⟩
    · exact fun c hc => isLineBreak_eq_false_of_isSpecial (hbare c hc) (hplain c hc)
    · exact unquote_eq_self fun hhead => hfree (List.mem_of_head? hhead)
    · rintro before after rfl
      simp at hfree

end ChangeImpact.Git
