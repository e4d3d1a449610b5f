import ChangeImpact.Proofs.QuotedName
import Mathlib.Algebra.BigOperators.Group.List.Basic

/-!
# Names that are printed byte by byte

Inside of the quotes a character that is not ASCII stands as it is or as the escapes of its bytes,
and both may happen in one name. Reading gives back the name in every case: each byte is read from
its own three digits, and the bytes are put together before they are decoded.
-/

namespace ChangeImpact.Git

open Text

/-- How bytes are printed as escapes. -/
def escapedBytes (bytes : Bytes) : List Char :=
  bytes.flatMap fun byte => '\\' :: octalDigits byte.toNat

/-- How a character is printed inside of quotes, byte by byte if that is asked for and the character
is not ASCII. -/
def escapeAs (bytewise : Bool) (c : Char) : List Char :=
  if bytewise && 128 ≤ c.toNat then escapedBytes (String.utf8EncodeChar c) else escape c

/-- How the characters of a name are printed inside of quotes; `bytewise` tells the places at which
this is done byte by byte. -/
def escapedAs (bytewise : ℕ → Bool) (name : List Char) : List Char :=
  name.zipIdx.flatMap fun (c, place) => escapeAs (bytewise place) c

/-- How a name is printed, with quotes if it has a special character. -/
def quotedName (bytewise : ℕ → Bool) (name : List Char) : List Char :=
  if isQuoted name then '"' :: (escapedAs bytewise name ++ ['"']) else name

variable {bytewise : ℕ → Bool} {name : List Char}

/-- Where no character is printed byte by byte, all others than special ones stand as they are. -/
theorem quotedName_of_none (name : List Char) :
    quotedName (fun _ => false) name = printedName name := by
  have hescaped : escapedAs (fun _ => false) name = escaped name := by
    have hitem (item : Char × ℕ) : escapeAs false item.1 = escape item.1 := if_neg (by simp)
    rw [escapedAs, escaped]
    simp only [hitem]
    rw [← List.flatMap_map, List.zipIdx_map_fst]
  rw [quotedName, printedName, hescaped]

/-- Escaped bytes are read back. -/
theorem unescapeFrom_escapedBytes (bytes : Bytes) (rest : List Char) :
    unescapeFrom 0 (escapedBytes bytes ++ rest) = (unescapeFrom 0 rest).map (bytes ++ ·) := by
  have hbyte (byte : UInt8) (rest : List Char) :
      unescapeFrom 0 ('\\' :: octalDigits byte.toNat ++ rest) =
        (unescapeFrom 0 rest).map ([byte] ++ ·) := by
    rw [List.cons_append, unescapeFrom_octalDigits byte.toNat_lt, UInt8.ofNat_toNat]
    rfl
  have hread := unescapeFrom_flatMap hbyte bytes rest
  rwa [List.flatMap_singleton'] at hread

/-- Escaped bytes do not end the quotes. -/
theorem quotedInside?_escapedBytes (bytes : Bytes) (rest : List Char) :
    quotedInside? (escapedBytes bytes ++ rest) =
      (quotedInside? rest).map (escapedBytes bytes ++ ·) :=
  quotedInside?_flatMap (fun byte rest => quotedInside?_octalDigits byte.toNat_lt rest) bytes rest

/-- What is printed for a character is read as its bytes, in either way. -/
theorem unescapeFrom_escapeAs (bytewise : Bool) (c : Char) (rest : List Char) :
    unescapeFrom 0 (escapeAs bytewise c ++ rest) =
      (unescapeFrom 0 rest).map (String.utf8EncodeChar c ++ ·) := by
  rw [escapeAs]
  split_ifs
  · exact unescapeFrom_escapedBytes _ rest
  · exact unescapeFrom_escape c rest

/-- What is printed for a character does not end the quotes, in either way. -/
theorem quotedInside?_escapeAs (bytewise : Bool) (c : Char) (rest : List Char) :
    quotedInside? (escapeAs bytewise c ++ rest) =
      (quotedInside? rest).map (escapeAs bytewise c ++ ·) := by
  rw [escapeAs]
  split_ifs
  · exact quotedInside?_escapedBytes _ rest
  · exact quotedInside?_escape c rest

/-- The inside of the quotes is read as the bytes of the name. -/
theorem unescapeFrom_escapedAs (bytewise : ℕ → Bool) (name : List Char) :
    unescapeFrom 0 (escapedAs bytewise name) = some (Utf8.encode name) := by
  have hread := unescapeFrom_flatMap
    (fun (item : Char × ℕ) rest => unescapeFrom_escapeAs (bytewise item.2) item.1 rest)
    name.zipIdx []
  have hbytes : name.zipIdx.flatMap (fun item => String.utf8EncodeChar item.1) =
      Utf8.encode name := by
    rw [Utf8.encode, ← List.flatMap_map, List.zipIdx_map_fst]
  rwa [hbytes, List.append_nil, unescapeFrom, Option.map_some, List.append_nil] at hread

/-- The quotes end behind the name. -/
theorem quotedInside?_escapedAs (bytewise : ℕ → Bool) (name : List Char) :
    quotedInside? (escapedAs bytewise name ++ ['"']) = some (escapedAs bytewise name) := by
  have hinside := quotedInside?_flatMap
    (fun (item : Char × ℕ) rest => quotedInside?_escapeAs (bytewise item.2) item.1 rest)
    name.zipIdx ['"']
  rwa [quotedInside?, Option.map_some, List.append_nil] at hinside

/-- A printed name is read as the name, whichever of its characters are printed byte by byte. -/
theorem unquote_ofList_quotedName (bytewise : ℕ → Bool) (name : List Char) :
    unquote (String.ofList (quotedName bytewise name)) = some (String.ofList name) := by
  rw [quotedName]
  split_ifs with hname
  · rw [unquote, String.toList_ofList]
    simp only [quotedInside?_escapedAs, unescapeFrom_escapedAs, Option.map_some,
      Utf8.decodeLossy_encode]
  · have hquote := quote_not_mem (Bool.eq_false_iff.mpr hname)
    exact unquote_eq_self fun hhead => hquote (List.mem_of_head? hhead)

/-- A name is read back where only its special characters are escaped. -/
theorem unquote_printedName (name : List Char) :
    unquote (String.ofList (printedName name)) = some (String.ofList name) := by
  rw [← quotedName_of_none]
  exact unquote_ofList_quotedName _ name

/-- For each character something is printed inside of quotes. -/
theorem escapeAs_ne_nil (bytewise : Bool) (c : Char) : escapeAs bytewise c ≠ [] := by
  intro hempty
  -- Nothing would be read back as no byte at all.
  have hread := unescapeFrom_escapeAs bytewise c []
  rw [hempty, List.nil_append, unescapeFrom, Option.map_some, List.append_nil,
    Option.some.injEq] at hread
  exact absurd hread.symm (String.utf8EncodeChar_ne_nil)

/-- Inside of quotes a name is printed with no fewer characters. -/
theorem length_le_escapedAs (bytewise : ℕ → Bool) (name : List Char) :
    name.length ≤ (escapedAs bytewise name).length := by
  have hsum := List.length_le_sum_of_one_le
    (name.zipIdx.map fun item => (escapeAs (bytewise item.2) item.1).length)
    (List.forall_mem_map.mpr fun item _ =>
      List.length_pos_iff.mpr (escapeAs_ne_nil (bytewise item.2) item.1))
  rw [List.length_map, List.length_zipIdx, ← List.length_flatMap] at hsum
  exact hsum

/-- A name stays as it is exactly if it has no special character. -/
theorem quotedName_eq_self_iff : quotedName bytewise name = name ↔ isQuoted name = false := by
  rw [quotedName]
  split_ifs with hname
  · refine iff_of_false ?_ (by simp [hname])
    intro hsame
    have hlength := congrArg List.length hsame
    have hle := length_le_escapedAs bytewise name
    simp only [List.length_cons, List.length_append, List.length_nil] at hlength
    omega
  · exact iff_of_true rfl (Bool.eq_false_iff.mpr hname)

/-- A name is printed as it is exactly if it has no double quote, backslash or control character,
and in every case it is read back, whichever of its characters are printed byte by byte. -/
theorem unquote_quotedName (bytewise : ℕ → Bool) (name : String) :
    (quotedName bytewise name.toList = name.toList ↔
        ∀ c ∈ name.toList, c ≠ '"' ∧ c ≠ '\\' ∧ isControl c = false) ∧
      unquote (String.ofList (quotedName bytewise name.toList)) = some name := by
  constructor
  · rw [quotedName_eq_self_iff]
    simp [isQuoted, isSpecial, not_or, and_assoc]
  · rw [unquote_ofList_quotedName, String.ofList_toList]

example : quotedName (· = 1) "aéé\x01\t7\"".toList =
    "\"a\\303\\251é\\001\\t7\\\"\"".toList := by
  decide

/-! ### Characters of printed names -/

/-- The characters with which escapes are written, and the quote around them. -/
def escapeMarks : List Char := "\"\\abtnvfr01234567".toList

/-- Octal digits are such characters. -/
theorem digitChar_mem_escapeMarks : ∀ d < 8, Nat.digitChar d ∈ escapeMarks := by decide

/-- The letters behind backslashes are such characters. -/
theorem escapeLetter?_mem_escapeMarks : ∀ n < 128,
    (escapeLetter? (Char.ofNat n)).all (fun letter => letter ∈ escapeMarks) = true := by
  decide

/-- The digits of a byte are such characters. -/
theorem mem_escapeMarks_of_mem_octalDigits {n : ℕ} (hn : n < 256) :
    ∀ d ∈ octalDigits n, d ∈ escapeMarks := by
  simp only [octalDigits, List.forall_mem_cons]
  exact ⟨digitChar_mem_escapeMarks _ (by omega), digitChar_mem_escapeMarks _ (by omega),
    digitChar_mem_escapeMarks _ (by omega), List.forall_mem_nil _⟩

/-- The escape of a special character is written with such characters. -/
theorem mem_escapeMarks_of_mem_escape {c : Char} (hc : isSpecial c = true) :
    ∀ d ∈ escape c, d ∈ escapeMarks := by
  have hascii := toNat_lt_of_isSpecial hc
  rw [escape, if_pos hc, List.forall_mem_cons]
  refine ⟨by decide, ?_⟩
  cases hletter : escapeLetter? c with
  | some letter =>
    have hmark := escapeLetter?_mem_escapeMarks c.toNat hascii
    rw [Char.ofNat_toNat, hletter] at hmark
    simpa using hmark
  | none => exact mem_escapeMarks_of_mem_octalDigits (by omega)

/-- What is printed for a character is the character or written with such characters. -/
theorem mem_of_mem_escapeAs {bytewise : Bool} {c d : Char} (hd : d ∈ escapeAs bytewise c) :
    d ∈ escapeMarks ∨ d = c ∧ isSpecial c = false := by
  rw [escapeAs] at hd
  split_ifs at hd
  · obtain ⟨byte, -, hd⟩ := List.mem_flatMap.mp hd
    obtain rfl | hd := List.mem_cons.mp hd
    · exact .inl (by decide)
    · exact .inl (mem_escapeMarks_of_mem_octalDigits byte.toNat_lt d hd)
  · cases hc : isSpecial c with
    | true => exact .inl (mem_escapeMarks_of_mem_escape hc d hd)
    | false =>
      rw [escape_eq_self hc, List.mem_singleton] at hd
      exact .inr ⟨hd, rfl⟩

/-- A character that does not stand in a name, or is special, stands in the printed name only if
escapes are written with it. -/
theorem not_mem_quotedName {d : Char} (hmark : d ∉ escapeMarks)
    (hname : d ∈ name → isSpecial d = true) : d ∉ quotedName bytewise name := by
  intro hd
  rw [quotedName] at hd
  split_ifs at hd with hquoted
  · simp only [List.mem_cons, List.mem_append, List.not_mem_nil, or_false] at hd
    obtain rfl | hd | rfl := hd
    · exact hmark (by decide)
    · obtain ⟨⟨c, place⟩, hitem, hescape⟩ := List.mem_flatMap.mp hd
      obtain hescape | ⟨rfl, hplain⟩ := mem_of_mem_escapeAs hescape
      · exact hmark hescape
      · have hmem : d ∈ name := by
          rw [← List.zipIdx_map_fst 0 name]
          exact List.mem_map.mpr ⟨_, hitem, rfl⟩
        rw [hname hmem] at hplain
        cases hplain
    · exact hmark (by decide)
  · have hplain := isSpecial_eq_false (Bool.eq_false_iff.mpr hquoted) hd
    rw [hname hd] at hplain
    cases hplain

/-- A name is printed as some text. -/
theorem quotedName_ne_nil (bytewise : ℕ → Bool) (hname : name ≠ []) :
    quotedName bytewise name ≠ [] := by
  rw [quotedName]
  split_ifs
  · exact List.cons_ne_nil _ _
  · exact hname

end ChangeImpact.Git
