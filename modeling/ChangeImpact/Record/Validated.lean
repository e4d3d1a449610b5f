import ChangeImpact.Json.Value
import ChangeImpact.Number.Literal

/-!
# Validation of records

A record is read from a JSON object field by field, and all that is wrong with it is collected: each
violation has the place of the offending value and a kind. Numbers may be written as texts, integers
as numbers without a fraction, and truth values as 0, 1 or one of a few words.
-/

namespace ChangeImpact

open Text

/-- A step into a value: to a field or to an item of a list. -/
inductive PlaceStep
  | field (name : String)
  | item (index : Nat)
  deriving DecidableEq, Repr

/-- What can be wrong with a value. -/
inductive ViolationKind
  | missing
  | stringType
  | intType
  | intParsing
  | intParsingSize
  | intFromFloat
  | finiteNumber
  | floatType
  | floatParsing
  | boolType
  | boolParsing
  | listType
  | enum
  | literal
  | modelType
  | tooSmall
  | tooLarge
  deriving DecidableEq, Repr

/-- The kind as it is reported. -/
def ViolationKind.name : ViolationKind → String
  | .missing => "missing"
  | .stringType => "string_type"
  | .intType => "int_type"
  | .intParsing => "int_parsing"
  | .intParsingSize => "int_parsing_size"
  | .intFromFloat => "int_from_float"
  | .finiteNumber => "finite_number"
  | .floatType => "float_type"
  | .floatParsing => "float_parsing"
  | .boolType => "bool_type"
  | .boolParsing => "bool_parsing"
  | .listType => "list_type"
  | .enum => "enum"
  | .literal => "literal_error"
  | .modelType => "model_type"
  | .tooSmall => "greater_than_equal"
  | .tooLarge => "less_than_equal"

/-- Something wrong with a value. -/
structure Violation where
  place : List PlaceStep
  kind : ViolationKind
  deriving DecidableEq, Repr

/-- A value, or everything that is wrong with it. -/
inductive Validated (α : Type)
  | valid (value : α)
  | invalid (violations : List Violation)

namespace Validated

/-- The value with a function applied to it. -/
def map {α β : Type} (f : α → β) : Validated α → Validated β
  | valid value => valid (f value)
  | invalid violations => invalid violations

/-- A function and its argument, or what is wrong with either, first with the function. -/
def apply {α β : Type} (f : Validated (α → β)) (x : Validated α) : Validated β :=
  match f, x with
  | valid f, valid x => valid (f x)
  | valid _, invalid violations => invalid violations
  | invalid violations, valid _ => invalid violations
  | invalid first, invalid second => invalid (first ++ second)

instance : Applicative Validated where
  pure := valid
  seq f x := apply f (x ())

/-- A single violation of the value itself. -/
def refuse {α : Type} (kind : ViolationKind) : Validated α := invalid [⟨[], kind⟩]

/-- The same value, seen from outside: its violations lie one step further in. -/
def under {α : Type} (step : PlaceStep) : Validated α → Validated α
  | valid value => valid value
  | invalid violations =>
    invalid (violations.map fun v => { v with place := step :: v.place })

/-- A value that has to pass a further check. -/
def check {α β : Type} (next : α → Validated β) : Validated α → Validated β
  | valid value => next value
  | invalid violations => invalid violations

/-- The value or the violations. -/
def toExcept {α : Type} : Validated α → Except (List Violation) α
  | valid value => .ok value
  | invalid violations => .error violations

end Validated

/-- Reads a value of some type from JSON. -/
abbrev Decoder (α : Type) := Json → Validated α

namespace Decoder

/-- A text. -/
def string : Decoder String
  | .string s => .valid s
  | _ => .refuse .stringType

/-- The integer that the digits of a text write; its fraction, if there is one, has zeros alone. -/
def integerDigits? (text : List Char) : Option (List Char) := do
  let digits ← Number.dropUnderscores? (text.takeWhile (· != '.'))
  let fraction := (text.dropWhile (· != '.')).drop 1
  if !digits.isEmpty && digits.all Number.isDigitChar && fraction.all (· == '0') then some digits
  else none

/-- An integer that is written as a text. -/
def integerText (text : List Char) : Validated Int :=
  let (negative, body) := match trimPadding text with
    | '-' :: rest => (true, rest)
    | '+' :: rest => (false, rest)
    | rest => (false, rest)
  match integerDigits? body with
  | none => .refuse .intParsing
  | some digits =>
    if maxIntegerDigits < digits.length then .refuse .intParsingSize
    else
      let n : Int := Number.digitsValue digits
      .valid (if negative then -n else n)

/-- An integer. -/
def int : Decoder Int
  | .int n => .valid n
  | .bool b => .valid (if b then 1 else 0)
  | .string s => integerText s.toList
  | .real (.finite x) =>
    if x.value.den ≠ 1 then .refuse .intFromFloat
    else if -(Number.pow2 63 : Int) ≤ x.value.num && x.value.num < Number.pow2 63 then
      .valid x.value.num
    else .refuse .intParsingSize
  | .real _ => .refuse .finiteNumber
  | _ => .refuse .intType

/-- An integer that is at least `least`. -/
def intFrom (least : Nat) : Decoder Nat := fun json =>
  (int json).check fun (n : Int) => if n < least then .refuse .tooSmall else .valid n.toNat

/-- An integer from `0` to `most`. -/
def intUpTo (most : Nat) : Decoder Nat := fun json =>
  (int json).check fun (n : Int) =>
    if (most : Int) < n then .refuse .tooLarge
    else if n < 0 then .refuse .tooSmall
    else .valid n.toNat

/-- The number nearest to an integer, if it is not too large. -/
def ofInt (n : Int) : Validated Extended :=
  match Extended.ofDecimal (n < 0) n.natAbs 0 with
  | .finite x => .valid (.finite x)
  | _ => .refuse .floatType

/-- A number. -/
def real : Decoder Extended
  | .real x => .valid x
  | .int n => ofInt n
  | .bool b => .valid (.finite (if b then 1 else 0))
  | .string s =>
    match Number.numeral? (trimPadding s.toList) with
    | some x => .valid x
    | none => .refuse .floatParsing
  | _ => .refuse .floatType

/-- A number from `0` to `most`. -/
def realUpTo (most : Nat) : Decoder Binary64 := fun json =>
  (real json).check fun x =>
    match x with
    | .finite x =>
      if (most : Rat) < x.value then .refuse .tooLarge
      else if x.value < 0 then .refuse .tooSmall
      else .valid x
    | .infinite negative => .refuse (if negative then .tooSmall else .tooLarge)
    | .nan => .refuse .tooSmall

/-- Words for truth. -/
def trueWords : List String := ["1", "on", "t", "true", "y", "yes"]

/-- Words for falsehood. -/
def falseWords : List String := ["0", "off", "f", "false", "n", "no"]

/-- The text with ASCII capitals in lower case. -/
def asciiLower (s : String) : String := String.ofList (s.toList.map Char.toLower)

/-- A truth value. -/
def bool : Decoder Bool
  | .bool b => .valid b
  | .string s =>
    let word := asciiLower s
    if trueWords.contains word then .valid true
    else if falseWords.contains word then .valid false
    else .refuse .boolParsing
  | .int n => if n = 0 then .valid false else if n = 1 then .valid true else .refuse .boolParsing
  | .real (.finite x) =>
    if x.value.den ≠ 1 then .refuse .boolType
    else if x.value = 0 then .valid false
    else if x.value = 1 then .valid true
    else .refuse .boolParsing
  | _ => .refuse .boolType

/-- A value or null. -/
def optional {α : Type} (decode : Decoder α) : Decoder (Option α)
  | .null => .valid none
  | json => (decode json).map some

/-- Items of a list, each with its index, from a given index on. -/
def itemsFrom {α : Type} (decode : Decoder α) : Nat → List Json → Validated (List α)
  | _, [] => .valid []
  | index, json :: rest =>
    (((decode json).under (.item index)).map List.cons).apply (itemsFrom decode (index + 1) rest)

/-- A list. -/
def list {α : Type} (decode : Decoder α) : Decoder (List α)
  | .list items => itemsFrom decode 0 items
  | _ => .refuse .listType

/-- One of some named values. -/
def named {α : Type} (all : List α) (name : α → String) (kind : ViolationKind) : Decoder α
  | .string s =>
    match all.find? fun value => name value == s with
    | some value => .valid value
    | none => .refuse kind
  | _ => .refuse kind

/-- A record: what its fields say of an object. -/
def record {α : Type} (decode : List (String × Json) → Validated α) : Decoder α
  | .object fields => decode fields
  | _ => .refuse .modelType

/-- A field that may go by one of two names, the first of which wins. Without it the default counts,
and without a default it is missing. -/
def field {α : Type} (fields : List (String × Json)) (name other : String) (decode : Decoder α)
    (fallback : Option α) : Validated α :=
  match fields.lookup name with
  | some json => (decode json).under (.field name)
  | none =>
    match fields.lookup other with
    | some json => (decode json).under (.field other)
    | none =>
      match fallback with
      | some value => .valid value
      | none => .invalid [⟨[.field name], .missing⟩]

end Decoder

end ChangeImpact
