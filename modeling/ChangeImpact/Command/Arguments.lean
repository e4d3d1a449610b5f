/-!
# Command-line arguments

An option is a flag or takes a value, which stands behind an equals sign or is the next argument.
Short options may be joined behind one hyphen. Two hyphens alone end the options. Of several values
for one option the last counts. Anything else in the wrong place is a usage error.
-/

namespace ChangeImpact.Command

/-- An option that a command knows. -/
structure OptionSpec where
  long : String
  short : Option Char := none
  takesValue : Bool
  deriving DecidableEq, Repr

/-- The arguments of a call: the options with their values, last first, and the other arguments. -/
structure Parsed where
  options : List (String × String) := []
  positional : List String := []
  deriving DecidableEq, Repr

namespace Parsed

/-- The value of an option. -/
def value? (parsed : Parsed) (long : String) : Option String := parsed.options.lookup long

/-- Whether a flag is set. -/
def isSet (parsed : Parsed) (long : String) : Bool := (parsed.value? long).isSome

end Parsed

/-- What an argument that starts with a hyphen says: some options with values, and perhaps one whose
value is the next argument. -/
structure OptionArgument where
  settled : List (String × String)
  awaiting : Option String

/-- Reads joined short options. -/
def shortOptions? (specs : List OptionSpec) (settled : List (String × String)) :
    List Char → Option OptionArgument
  | [] => some ⟨settled, none⟩
  | c :: rest =>
    match specs.find? fun spec => spec.short == some c with
    | none => none
    | some spec =>
      if spec.takesValue then
        if rest.isEmpty then some ⟨settled, some spec.long⟩
        else some ⟨(spec.long, String.ofList rest) :: settled, none⟩
      else shortOptions? specs ((spec.long, "") :: settled) rest

/-- Reads an argument that starts with a hyphen and is longer than that. -/
def optionArgument? (specs : List OptionSpec) (argument : String) : Option OptionArgument :=
  let chars := argument.toList
  let name := String.ofList (chars.takeWhile (· != '='))
  let value := match chars.dropWhile (· != '=') with
    | _ :: value => some (String.ofList value)
    | [] => none
  match specs.find? fun spec => spec.long == name with
  | some spec =>
    match spec.takesValue, value with
    | true, some value => some ⟨[(spec.long, value)], none⟩
    | true, none => some ⟨[], some spec.long⟩
    | false, some _ => none
    | false, none => some ⟨[(spec.long, "")], none⟩
  | none =>
    match chars with
    | '-' :: '-' :: _ => none
    | '-' :: short => shortOptions? specs [] short
    | _ => none

/-- Whether an argument is read as an option. -/
def looksLikeOption (argument : String) : Bool :=
  match argument.toList with
  | '-' :: _ :: _ => true
  | _ => false

/-- Reads arguments. Unless options may follow other arguments, the first of these ends them. -/
def parse? (specs : List OptionSpec) (mixed : Bool) (parsed : Parsed) :
    List String → Option Parsed
  | [] => some parsed
  | "--" :: rest => some { parsed with positional := parsed.positional ++ rest }
  | argument :: rest =>
    if looksLikeOption argument then
      match optionArgument? specs argument with
      | none => none
      | some ⟨settled, none⟩ =>
        parse? specs mixed { parsed with options := settled ++ parsed.options } rest
      | some ⟨settled, some long⟩ =>
        match rest with
        | [] => none
        | value :: rest =>
          parse? specs mixed
            { parsed with options := (long, value) :: settled ++ parsed.options } rest
    else if mixed then
      parse? specs mixed { parsed with positional := parsed.positional ++ [argument] } rest
    else some { parsed with positional := parsed.positional ++ argument :: rest }

end ChangeImpact.Command
