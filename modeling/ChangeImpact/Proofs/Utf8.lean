import ChangeImpact.Text.Utf8
import Mathlib.Data.Nat.Notation
import Mathlib.Tactic.SplitIfs

/-!
# Decoding encoded text

The bytes of a character are read back as one piece: the first byte says how many follow, and the
bounds on the second one exclude only overlong forms, surrogates and what lies beyond the last code
point. Lenient and strict decoding therefore give back every encoded text.
-/

namespace ChangeImpact.Text.Utf8

/-- An ASCII byte has nothing to follow. -/
theorem follow?_ascii : ∀ n < 128, follow? n = some (0, 0, 0) := by decide

/-- A first byte of two that is no overlong form has one byte to follow. -/
theorem follow?_of_two : ∀ x < 32, 2 ≤ x → follow? (x + 0xC0) = some (0x80, 0xBF, 1) := by decide

/-- The first byte of three has two bytes to follow. -/
theorem follow?_of_three : ∀ x < 16, follow? (x + 0xE0) =
    some (if x = 0 then 0xA0 else 0x80, if x = 13 then 0x9F else 0xBF, 2) := by
  decide

/-- The first byte of four has three bytes to follow. -/
theorem follow?_of_four : ∀ x < 5, follow? (x + 0xF0) =
    some (if x = 0 then 0x90 else 0x80, if x = 4 then 0x8F else 0xBF, 3) := by
  decide

/-- A byte within the bounds adds its six bits. -/
theorem continuation_succ {low high x : ℕ} (hx : x < 64) (hlow : low ≤ x + 0x80)
    (hhigh : x + 0x80 ≤ high) (count bits used : ℕ) (rest : Bytes) :
    continuation low high (count + 1) bits used (UInt8.ofNat (x + 0x80) :: rest) =
      continuation 0x80 0xBF count (bits * 64 + x) (used + 1) rest := by
  have hbyte : (UInt8.ofNat (x + 0x80)).toNat = x + 0x80 := Nat.mod_eq_of_lt (by omega)
  rw [continuation, hbyte, if_pos (by simp [hlow, hhigh]), Nat.add_sub_cancel]

/-- A piece goes on as its first byte says. -/
theorem piece_ofNat {n low high count : ℕ} (hn : n < 256)
    (hfollow : follow? n = some (low, high, count)) (rest : Bytes) :
    piece (UInt8.ofNat n) rest = continuation low high count (leadBits n count) 1 rest := by
  have hbyte : (UInt8.ofNat n).toNat = n := Nat.mod_eq_of_lt hn
  rw [piece, hbyte, hfollow]

section Pieces

variable {v : ℕ} (rest : Bytes)

/-- One byte below the high bit is a piece. -/
theorem piece_of_one (hv : v ≤ 0x7F) : piece (UInt8.ofNat v) rest = .char (Char.ofNat v) 1 := by
  have hbits : leadBits v 0 = v := rfl
  rw [piece_ofNat (by omega) (follow?_ascii v (by omega)), continuation, hbits]

/-- Two bytes are a piece if one is not enough for the code point. -/
theorem piece_of_two (hlow : 0x7F < v) (hv : v ≤ 0x7FF) :
    piece (UInt8.ofNat (v / 64 % 32 + 0xC0)) (UInt8.ofNat (v % 64 + 0x80) :: rest) =
      .char (Char.ofNat v) 2 := by
  have hlead : v / 64 % 32 = v / 64 := Nat.mod_eq_of_lt (by omega)
  have hfirst : leadBits (v / 64 + 0xC0) 1 = v / 64 := Nat.add_sub_cancel _ _
  have hbits : v / 64 * 64 + v % 64 = v := by omega
  rw [hlead, piece_ofNat (by omega) (follow?_of_two _ (by omega) (by omega)),
    continuation_succ (by omega) (by omega) (by omega), continuation, hfirst, hbits]

/-- Three bytes are a piece if two are not enough and the code point is no surrogate. -/
theorem piece_of_three (hlow : 0x7FF < v) (hv : v ≤ 0xFFFF)
    (hsurrogate : v < 0xD800 ∨ 0xDFFF < v) :
    piece (UInt8.ofNat (v / 4096 % 16 + 0xE0)) (UInt8.ofNat (v / 64 % 64 + 0x80) ::
      UInt8.ofNat (v % 64 + 0x80) :: rest) = .char (Char.ofNat v) 3 := by
  have hlead : v / 4096 % 16 = v / 4096 := Nat.mod_eq_of_lt (by omega)
  have hfirst : leadBits (v / 4096 + 0xE0) 2 = v / 4096 := Nat.add_sub_cancel _ _
  have hbits : (v / 4096 * 64 + v / 64 % 64) * 64 + v % 64 = v := by omega
  rw [hlead, piece_ofNat (by omega) (follow?_of_three _ (by omega)),
    continuation_succ (by omega) (by split <;> omega) (by split <;> omega),
    continuation_succ (by omega) (by omega) (by omega), continuation, hfirst, hbits]

/-- Four bytes are a piece if three are not enough for the code point. -/
theorem piece_of_four (hlow : 0xFFFF < v) (hv : v < 0x110000) :
    piece (UInt8.ofNat (v / 262144 % 8 + 0xF0)) (UInt8.ofNat (v / 4096 % 64 + 0x80) ::
      UInt8.ofNat (v / 64 % 64 + 0x80) :: UInt8.ofNat (v % 64 + 0x80) :: rest) =
        .char (Char.ofNat v) 4 := by
  have hlead : v / 262144 % 8 = v / 262144 := Nat.mod_eq_of_lt (by omega)
  have hfirst : leadBits (v / 262144 + 0xF0) 3 = v / 262144 := Nat.add_sub_cancel _ _
  have hbits : ((v / 262144 * 64 + v / 4096 % 64) * 64 + v / 64 % 64) * 64 + v % 64 = v := by
    omega
  rw [hlead, piece_ofNat (by omega) (follow?_of_four _ (by omega)),
    continuation_succ (by omega) (by split <;> omega) (by split <;> omega),
    continuation_succ (by omega) (by omega) (by omega),
    continuation_succ (by omega) (by omega) (by omega), continuation, hfirst, hbits]

end Pieces

/-- The code points of characters leave out the surrogates and end at `0x10FFFF`. -/
theorem toNat_bounds (c : Char) : c.toNat < 0xD800 ∨ (0xDFFF < c.toNat ∧ c.toNat < 0x110000) :=
  c.valid

/-- The bytes of a character are read back as one piece, whatever follows. -/
theorem piece_utf8EncodeChar (c : Char) (rest : Bytes) :
    ∃ lead more, String.utf8EncodeChar c = lead :: more ∧
      piece lead (more ++ rest) = .char c (more.length + 1) := by
  have hbounds := toNat_bounds c
  have hcode : c.val.toNat = c.toNat := rfl
  rw [String.utf8EncodeChar]
  simp only [hcode]
  split_ifs with hone htwo hthree
  · refine ⟨_, _, rfl, ?_⟩
    rw [List.nil_append, piece_of_one rest hone, Char.ofNat_toNat]
    rfl
  · refine ⟨_, _, rfl, ?_⟩
    have hpiece := piece_of_two rest (by omega) htwo
    rw [Char.ofNat_toNat] at hpiece
    exact hpiece
  · refine ⟨_, _, rfl, ?_⟩
    have hpiece := piece_of_three rest (by omega) hthree (hbounds.imp_right And.left)
    rw [Char.ofNat_toNat] at hpiece
    exact hpiece
  · refine ⟨_, _, rfl, ?_⟩
    have hpiece := piece_of_four rest (v := c.toNat) (by omega) (by omega)
    rw [Char.ofNat_toNat] at hpiece
    exact hpiece

/-- Bytes that were read as part of a piece are skipped. -/
theorem decodeLossyFrom_length (read rest : Bytes) :
    decodeLossyFrom read.length (read ++ rest) = decodeLossyFrom 0 rest := by
  induction read with
  | nil => rfl
  | cons b read ih => exact ih

/-- Lenient decoding reads an encoded character and goes on behind it. -/
theorem decodeLossyFrom_utf8EncodeChar (c : Char) (rest : Bytes) :
    decodeLossyFrom 0 (String.utf8EncodeChar c ++ rest) = c :: decodeLossyFrom 0 rest := by
  obtain ⟨lead, more, hbytes, hpiece⟩ := piece_utf8EncodeChar c rest
  rw [hbytes, List.cons_append, decodeLossyFrom, hpiece]
  exact congrArg (c :: ·) (decodeLossyFrom_length more rest)

/-- Lenient decoding gives back an encoded text. -/
theorem decodeLossy_encode (text : List Char) : decodeLossy (encode text) = text := by
  induction text with
  | nil => rfl
  | cons c text ih =>
    have hencode : encode (c :: text) = String.utf8EncodeChar c ++ encode text := rfl
    rw [decodeLossy, hencode, decodeLossyFrom_utf8EncodeChar]
    exact congrArg (c :: ·) ih

/-- Strict decoding skips bytes that were read as part of a piece. -/
theorem decodeFrom_length (position : ℕ) (read rest : Bytes) :
    decodeFrom position read.length (read ++ rest) =
      decodeFrom (position + read.length) 0 rest := by
  induction read generalizing position with
  | nil => rfl
  | cons b read ih =>
    rw [List.length_cons, List.cons_append, decodeFrom, ih, Nat.add_right_comm, Nat.add_assoc]

/-- Strict decoding finds nothing wrong with an encoded text and gives it back. -/
theorem decode_encode (text : List Char) : decode (encode text) = .ok text := by
  have hfrom (position : ℕ) : decodeFrom position 0 (encode text) = .ok text := by
    induction text generalizing position with
    | nil => rfl
    | cons c text ih =>
      obtain ⟨lead, more, hbytes, hpiece⟩ := piece_utf8EncodeChar c (encode text)
      have hencode : encode (c :: text) = lead :: (more ++ encode text) := by
        rw [← List.cons_append, ← hbytes]
        rfl
      rw [hencode, decodeFrom, hpiece]
      simp only [Nat.add_sub_cancel, decodeFrom_length, ih]
      rfl
  exact hfrom 0

end ChangeImpact.Text.Utf8
