/-!
# UTF-8

Bytes of a text and the text of bytes. Decoding reads a piece at a time: a character, or a longest
invalid beginning of one. A strict reader stops at the first invalid piece and says what is wrong
with it; a lenient one puts U+FFFD in its place.
-/

namespace ChangeImpact.Text

/-- The content of a file or of a program's output. -/
abbrev Bytes := List UInt8

namespace Utf8

/-- What is wrong with an invalid piece. -/
inductive Fault
  | invalidStart
  | invalidContinuation
  | unexpectedEnd
  deriving DecidableEq, Repr

/-- The first piece of some bytes and its length in bytes. -/
inductive Piece
  | char (c : Char) (length : Nat)
  | invalid (fault : Fault) (length : Nat)
  deriving DecidableEq, Repr

/-- The bytes that may follow the first byte `lead`, as bounds, and how many must follow in all;
`none` if no character starts with `lead`. ASCII bytes have nothing to follow. -/
def follow? (lead : Nat) : Option (Nat × Nat × Nat) :=
  if lead < 0x80 then some (0, 0, 0)
  else if lead < 0xC2 then none
  else if lead < 0xE0 then some (0x80, 0xBF, 1)
  else if lead == 0xE0 then some (0xA0, 0xBF, 2)
  else if lead == 0xED then some (0x80, 0x9F, 2)
  else if lead < 0xF0 then some (0x80, 0xBF, 2)
  else if lead == 0xF0 then some (0x90, 0xBF, 3)
  else if lead < 0xF4 then some (0x80, 0xBF, 3)
  else if lead == 0xF4 then some (0x80, 0x8F, 3)
  else none

/-- The payload bits of a first byte that `count` bytes follow. -/
def leadBits (lead count : Nat) : Nat :=
  match count with
  | 0 => lead
  | 1 => lead - 0xC0
  | 2 => lead - 0xE0
  | _ => lead - 0xF0

/-- Reads `count` more bytes, the first of them between `low` and `high`, onto the bits read so far;
`used` bytes have been read. -/
def continuation (low high : Nat) : (count : Nat) → (bits used : Nat) → Bytes → Piece
  | 0, bits, used, _ => .char (Char.ofNat bits) used
  | _ + 1, _, used, [] => .invalid .unexpectedEnd used
  | count + 1, bits, used, b :: rest =>
    if low ≤ b.toNat && b.toNat ≤ high then
      continuation 0x80 0xBF count (bits * 64 + (b.toNat - 0x80)) (used + 1) rest
    else .invalid .invalidContinuation used

/-- The piece that starts with `lead`. -/
def piece (lead : UInt8) (rest : Bytes) : Piece :=
  match follow? lead.toNat with
  | none => .invalid .invalidStart 1
  | some (low, high, count) => continuation low high count (leadBits lead.toNat count) 1 rest

/-- A text's bytes. -/
def encode (text : List Char) : Bytes := text.flatMap String.utf8EncodeChar

/-- Lenient decoding of what follows the first `skip` bytes. -/
def decodeLossyFrom : (skip : Nat) → Bytes → List Char
  | _, [] => []
  | skip + 1, _ :: rest => decodeLossyFrom skip rest
  | 0, b :: rest =>
    match piece b rest with
    | .char c length => c :: decodeLossyFrom (length - 1) rest
    | .invalid _ length => Char.ofNat 0xFFFD :: decodeLossyFrom (length - 1) rest

/-- The text of some bytes, with U+FFFD for every invalid piece. -/
def decodeLossy (bytes : Bytes) : List Char := decodeLossyFrom 0 bytes

/-- The first invalid piece of some bytes, with its position, its length and its first byte. -/
structure Invalid where
  position : Nat
  length : Nat
  lead : UInt8
  fault : Fault
  deriving DecidableEq, Repr

/-- Strict decoding of what follows the first `skip` bytes; `position` counts the bytes before. -/
def decodeFrom : (position skip : Nat) → Bytes → Except Invalid (List Char)
  | _, _, [] => .ok []
  | position, skip + 1, _ :: rest => decodeFrom (position + 1) skip rest
  | position, 0, b :: rest =>
    match piece b rest with
    | .char c length => (decodeFrom (position + 1) (length - 1) rest).map (c :: ·)
    | .invalid fault length => .error ⟨position, length, b, fault⟩

/-- The text of some bytes, if they are valid throughout. -/
def decode (bytes : Bytes) : Except Invalid (List Char) := decodeFrom 0 0 bytes

end Utf8

end ChangeImpact.Text
