import ChangeImpact.Text.Utf8
import ChangeImpact.Text.Scan

/-!
# Quoted paths

Git puts a path in double quotes if it holds a quote, a backslash or a control character. Inside the
quotes a backslash starts an escape: a letter for a control character, three octal digits for a
byte, or any other character for itself. The escapes give bytes, which are then read as UTF-8.
-/

namespace ChangeImpact.Git

open Text

/-- The value of an octal digit. -/
def octalValue? (c : Char) : Option Nat :=
  if '0' ≤ c && c ≤ '7' then some (c.toNat - '0'.toNat) else none

/-- The byte that three octal digits write; it may be too large. -/
def octal3? (a b c : Char) : Option Nat := do
  return ((← octalValue? a) * 8 + (← octalValue? b)) * 8 + (← octalValue? c)

/-- The byte that a letter after a backslash stands for, if it stands for another than itself. -/
def controlByte? : Char → Option UInt8
  | 'a' => some 7
  | 'b' => some 8
  | 't' => some 9
  | 'n' => some 10
  | 'v' => some 11
  | 'f' => some 12
  | 'r' => some 13
  | _ => none

/-- The inside of a quoted path with escapes kept: up to a quote that no backslash precedes and that
ends the text, or stands before a newline that ends it. -/
def quotedInside? : List Char → Option (List Char)
  | [] => none
  | ['"'] => some []
  | ['"', '\n'] => some []
  | '"' :: _ => none
  | '\\' :: c :: rest =>
    if c = '\n' then none else (quotedInside? rest).map fun inside => '\\' :: c :: inside
  | ['\\'] => none
  | c :: rest => (quotedInside? rest).map (c :: ·)

/-- The bytes that the inside of a quoted path stands for past its first `skip` characters; `none`
if an octal escape is no byte. -/
def unescapeFrom : (skip : Nat) → List Char → Option Bytes
  | _, [] => some []
  | skip + 1, _ :: rest => unescapeFrom skip rest
  | 0, '\\' :: c :: rest =>
    let single := (unescapeFrom 1 (c :: rest)).map fun bytes =>
      (match controlByte? c with
        | some byte => [byte]
        | none => String.utf8EncodeChar c) ++ bytes
    match rest with
    | d :: e :: _ =>
      match octal3? c d e with
      | some n => if n < 256 then (unescapeFrom 3 (c :: rest)).map (UInt8.ofNat n :: ·) else none
      | none => single
    | _ => single
  | 0, c :: rest => (unescapeFrom 0 rest).map (String.utf8EncodeChar c ++ ·)

/-- The path that a printed path stands for: itself unless it is quoted. There is none if an escape
is no byte. -/
def unquote (path : String) : Option String :=
  match path.toList with
  | '"' :: rest =>
    match quotedInside? rest with
    | none => some path
    | some inside =>
      (unescapeFrom 0 inside).map fun bytes => String.ofList (Utf8.decodeLossy bytes)
  | _ => some path

end ChangeImpact.Git
