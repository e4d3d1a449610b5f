import ChangeImpact.Json.Value
import ChangeImpact.Text.Digit

/-!
# Reading JSON

A text is read as one JSON value with blanks around it. `NaN` and the infinities are accepted as
numbers. Of several fields of one name the last counts. A text that is no value is refused with the
first problem and its position. There may be a limit to the digits of an integer.
-/

namespace ChangeImpact.Json

/-- Why a text is not a JSON value. -/
inductive Problem
  | expectedValue
  | expectedName
  | expectedColon
  | expectedComma
  | extraData
  | unterminatedText
  | controlCharacter
  | badEscape
  | badUnicodeEscape
  | byteOrderMark
  | longInteger
  deriving DecidableEq, Repr

/-- A problem and the number of characters that lie before it. -/
structure ReadError where
  problem : Problem
  position : Nat
  deriving DecidableEq, Repr

/-- A problem and the number of characters that lie from it to the end. -/
structure Stop where
  problem : Problem
  remaining : Nat

/-- Stops in front of `rest`. -/
def stop {α : Type} (problem : Problem) (rest : List Char) : Except Stop α :=
  .error ⟨problem, rest.length⟩

/-- The four blanks of JSON. -/
def isJsonBlank (c : Char) : Bool := c == ' ' || c == '\t' || c == '\n' || c == '\r'

/-- The text without the blanks at its start. -/
def skipBlanks (text : List Char) : List Char := text.dropWhile isJsonBlank

/-- The value of a hexadecimal digit. -/
def hexValue? (c : Char) : Option Nat :=
  if '0' ≤ c && c ≤ '9' then some (c.toNat - '0'.toNat)
  else if 'a' ≤ c && c ≤ 'f' then some (c.toNat - 'a'.toNat + 10)
  else if 'A' ≤ c && c ≤ 'F' then some (c.toNat - 'A'.toNat + 10)
  else none

/-- The number that four hexadecimal digits write. -/
def hex4? (a b c d : Char) : Option Nat := do
  return (((← hexValue? a) * 16 + (← hexValue? b)) * 16 + (← hexValue? c)) * 16 + (← hexValue? d)

/-- Whether a code unit opens a surrogate pair. -/
def isHighSurrogate (n : Nat) : Bool := 0xD800 ≤ n && n < 0xDC00

/-- Whether a code unit closes a surrogate pair. -/
def isLowSurrogate (n : Nat) : Bool := 0xDC00 ≤ n && n < 0xE000

/-- The character of a code unit; a surrogate that stands alone has none and becomes U+FFFD. -/
def unitChar (n : Nat) : Char :=
  if isHighSurrogate n || isLowSurrogate n then Char.ofNat 0xFFFD else Char.ofNat n

/-- The character that a single letter after a backslash stands for. -/
def escapedChar? : Char → Option Char
  | '"' => some '"'
  | '\\' => some '\\'
  | '/' => some '/'
  | 'b' => some '\x08'
  | 'f' => some '\x0c'
  | 'n' => some '\n'
  | 'r' => some '\r'
  | 't' => some '\t'
  | _ => none

/-- The low surrogate escaped at the start of a text, if more than one character follows it. -/
def pairedUnit? (text : List Char) : Except Unit (Option Nat) :=
  match text with
  | '\\' :: 'u' :: a :: b :: c :: d :: _ :: _ =>
    match hex4? a b c d with
    | none => .error ()
    | some low => .ok (if isLowSurrogate low then some low else none)
  | _ => .ok none

/-- Reads the inside of a text up to its closing quote. `start` is the number of characters from the
opening quote to the end; the first `skip` characters belong to what was read before, and
`collected` holds the characters of the value so far, last first. -/
def textInside (start : Nat) (collected : List Char) :
    (skip : Nat) → List Char → Except Stop (String × List Char)
  | _, [] => .error ⟨.unterminatedText, start⟩
  | skip + 1, _ :: rest => textInside start collected skip rest
  | 0, '"' :: rest => .ok (String.ofList collected.reverse, rest)
  | 0, '\\' :: rest =>
    match rest with
    | [] => .error ⟨.unterminatedText, start⟩
    | 'u' :: more =>
      match more with
      | a :: b :: c :: d :: e :: after =>
        match hex4? a b c d with
        | none => stop .badUnicodeEscape rest
        | some unit =>
          if isHighSurrogate unit then
            match pairedUnit? (e :: after) with
            | .error () => stop .badUnicodeEscape ((e :: after).drop 1)
            | .ok (some low) =>
              let c := Char.ofNat (0x10000 + (unit - 0xD800) * 0x400 + (low - 0xDC00))
              textInside start (c :: collected) 11 rest
            | .ok none => textInside start (unitChar unit :: collected) 5 rest
          else textInside start (unitChar unit :: collected) 5 rest
      | _ => stop .badUnicodeEscape rest
    | c :: _ =>
      match escapedChar? c with
      | some escaped => textInside start (escaped :: collected) 1 rest
      | none => stop .badEscape ('\\' :: rest)
  | 0, c :: rest =>
    if c.toNat < 0x20 then stop .controlCharacter (c :: rest)
    else textInside start (c :: collected) 0 rest

/-- ASCII digits. -/
def isAsciiDigit (c : Char) : Bool := '0' ≤ c && c ≤ '9'

/-- The number written by ASCII digits. -/
def natOf (digits : List Char) : Nat := Text.ofDigitValues (digits.map fun c => c.toNat - '0'.toNat)

/-- The digits of a fraction after its point, if there are any, and the rest. -/
def fraction (text : List Char) : Option (List Char) × List Char :=
  match text with
  | '.' :: d :: rest =>
    if isAsciiDigit d then
      (some ((d :: rest).takeWhile isAsciiDigit), (d :: rest).dropWhile isAsciiDigit)
    else (none, text)
  | _ => (none, text)

/-- An exponent, if there is one, and the rest. -/
def exponent (text : List Char) : Option Int × List Char :=
  match text with
  | e :: rest =>
    if e = 'e' || e = 'E' then
      let (negative, body) := match rest with
        | '-' :: more => (true, more)
        | '+' :: more => (false, more)
        | _ => (false, rest)
      match body.takeWhile isAsciiDigit with
      | [] => (none, text)
      | digits =>
        let n : Int := natOf digits
        (some (if negative then -n else n), body.dropWhile isAsciiDigit)
    else (none, text)
  | [] => (none, text)

/-- The digits of the integer at the start of a text; a zero has no more behind it. -/
def integerDigits (text : List Char) : List Char :=
  match text with
  | '0' :: _ => ['0']
  | _ => text.takeWhile isAsciiDigit

/-- Reads a number; `whole` is the text from the start of the value. -/
def number (limit : Option Nat) (whole : List Char) (negative : Bool) (text : List Char) :
    Except Stop (Json × List Char) :=
  let integer := integerDigits text
  if integer.isEmpty then stop .expectedValue whole
  else
    let rest := text.drop integer.length
    let (decimals, rest) := fraction rest
    let (power, rest) := exponent rest
    if decimals.isNone && power.isNone then
      if limit.any (· < integer.length) then stop .longInteger whole
      else
        let n : Int := natOf integer
        .ok (.int (if negative then -n else n), rest)
    else
      let places := decimals.getD []
      .ok (.real (.ofDecimal negative (natOf (integer ++ places))
        (power.getD 0 - (places.length : Int))), rest)

/-- Reads the rest of a word that is a value. -/
def word (rest : List Char) (ending : String) (value : Json) (whole : List Char) :
    Except Stop (Json × List Char) :=
  match ending.toList.isPrefixOf? rest with
  | some after => .ok (value, after)
  | none => stop .expectedValue whole

mutual

/-- Reads a value. The number of nested calls is bounded by the second argument. -/
def value (limit : Option Nat) : Nat → List Char → Except Stop (Json × List Char)
  | 0, text => stop .expectedValue text
  | fuel + 1, text =>
    match text with
    | '"' :: rest => (textInside text.length [] 0 rest).map fun (s, after) => (.string s, after)
    | '\x7b' :: rest =>
      match skipBlanks rest with
      | '\x7d' :: after => .ok (.object [], after)
      | inside => fields limit fuel [] inside
    | '[' :: rest =>
      match skipBlanks rest with
      | ']' :: after => .ok (.list [], after)
      | inside => items limit fuel [] inside
    | 'n' :: rest => word rest "ull" .null text
    | 't' :: rest => word rest "rue" (.bool true) text
    | 'f' :: rest => word rest "alse" (.bool false) text
    | 'N' :: rest => word rest "aN" (.real .nan) text
    | 'I' :: rest => word rest "nfinity" (.real (.infinite false)) text
    | '-' :: 'I' :: rest => word rest "nfinity" (.real (.infinite true)) text
    | '-' :: rest => number limit text true rest
    | _ => number limit text false text

/-- Reads the items of a list from the next item on; `before` holds the earlier ones, last first. -/
def items (limit : Option Nat) : Nat → List Json → List Char → Except Stop (Json × List Char)
  | 0, _, text => stop .expectedValue text
  | fuel + 1, before, text => do
    let (item, rest) ← value limit fuel text
    match skipBlanks rest with
    | ']' :: after => .ok (.list (item :: before).reverse, after)
    | ',' :: more => items limit fuel (item :: before) (skipBlanks more)
    | other => stop .expectedComma other

/-- Reads the fields of an object from the next name on. -/
def fields (limit : Option Nat) :
    Nat → List (String × Json) → List Char → Except Stop (Json × List Char)
  | 0, _, text => stop .expectedValue text
  | fuel + 1, before, text =>
    match text with
    | '"' :: inside => do
      let (name, rest) ← textInside text.length [] 0 inside
      match skipBlanks rest with
      | ':' :: more =>
        let (item, rest) ← value limit fuel (skipBlanks more)
        match skipBlanks rest with
        | '\x7d' :: after => .ok (.object (setField name item before), after)
        | ',' :: more => fields limit fuel (setField name item before) (skipBlanks more)
        | other => stop .expectedComma other
      | other => stop .expectedColon other
    | _ => stop .expectedName text

end

/-- Reads a text that is one value with blanks around it. -/
def readWhole (limit : Option Nat) (text : List Char) : Except Stop Json :=
  match text with
  | '\ufeff' :: _ => stop .byteOrderMark text
  | _ => do
    let (result, rest) ← value limit (2 * text.length + 2) (skipBlanks text)
    match skipBlanks rest with
    | [] => .ok result
    | other => stop .extraData other

/-- Reads a text as a JSON value, whose integers have at most `limit` digits, if there is a
limit. -/
def readWithin (limit : Option Nat) (text : List Char) : Except ReadError Json :=
  match readWhole limit text with
  | .ok result => .ok result
  | .error s => .error ⟨s.problem, text.length - s.remaining⟩

/-- Reads a text as a JSON value, with the usual limit for integers. -/
def read (text : List Char) : Except ReadError Json := readWithin (some Text.maxIntegerDigits) text

/-- What a problem is called. -/
def Problem.description : Problem → String
  | .expectedValue => "Expecting value"
  | .expectedName => "Expecting property name enclosed in double quotes"
  | .expectedColon => "Expecting ':' delimiter"
  | .expectedComma => "Expecting ',' delimiter"
  | .extraData => "Extra data"
  | .unterminatedText => "Unterminated string starting at"
  | .controlCharacter => "Invalid control character at"
  | .badEscape => "Invalid \\escape"
  | .badUnicodeEscape => "Invalid \\uXXXX escape"
  | .byteOrderMark => "Unexpected UTF-8 BOM (decode using utf-8-sig)"
  | .longInteger => "Exceeds the limit (4300 digits) for integer string conversion"

/-- The message for a problem in a text: what it is, and its line, column and position. -/
def ReadError.message (error : ReadError) (text : List Char) : String :=
  let before := text.take error.position
  let line := before.count '\n' + 1
  let column := (before.reverse.takeWhile (· != '\n')).length + 1
  s!"{error.problem.description}: line {line} column {column} (char {error.position})"

end ChangeImpact.Json
