import ChangeImpact.Text.Scan

/-!
# Comparing signatures

A signature is a list of parameters in parentheses and perhaps a return type behind a colon.
Parameters are separated by commas that stand in no brackets, where the `>` of an arrow closes
nothing. The comparison says in words what differs: the number of parameters, the type of each
common one, and the return type.
-/

namespace ChangeImpact

open Text

/-- A signature in its parts. -/
structure Signature where
  params : List String
  returnType : Option String
  deriving DecidableEq, Repr

namespace Signature

/-- Opening brackets. -/
def isOpener (c : Char) : Bool := c == '<' || c == '(' || c == '[' || c == '\x7b'

/-- Closing brackets. -/
def isCloser (c : Char) : Bool := c == '>' || c == ')' || c == ']' || c == '\x7d'

/-- The change of nesting at a character, given the character before it. -/
def nesting (previous : Option Char) (c : Char) : Int :=
  if isOpener c then 1
  else if isCloser c && !(c == '>' && previous == some '=') then -1
  else 0

/-- Cuts a text at the commas outside of all brackets. `current` holds the part so far, last
character first. -/
def splitFrom (depth : Int) (previous : Option Char) (current : List Char) :
    List Char → List (List Char)
  | [] => [current.reverse]
  | c :: rest =>
    if c = ',' && depth = 0 then current.reverse :: splitFrom depth (some c) [] rest
    else splitFrom (depth + nesting previous c) (some c) (c :: current) rest

/-- The parameters of a parameter list, trimmed; blank ones are left out. -/
def splitParams (text : List Char) : List String :=
  ((splitFrom 0 none [] text).map trim).filterMap fun param =>
    if param.isEmpty then none else some (String.ofList param)

/-- The text up to the parenthesis that brings the depth back to zero, and the text behind it. -/
def closing? (depth : Int) : List Char → Option (List Char × List Char)
  | [] => none
  | c :: rest =>
    let next := if c = '(' then depth + 1 else if c = ')' then depth - 1 else depth
    if c = ')' && next = 0 then some ([], rest)
    else (closing? next rest).map fun (inside, after) => (c :: inside, after)

/-- The parts of a signature. Without an opening parenthesis it has none; without the closing one
all that follows is parameters. -/
def ofText (text : String) : Signature :=
  match collapse text.toList with
  | '(' :: rest =>
    match closing? 1 rest with
    | none => ⟨splitParams rest, none⟩
    | some (inside, after) =>
      ⟨splitParams inside,
        match trim after with
        | ':' :: type => some (String.ofList (collapse type))
        | _ => none⟩
  | _ => ⟨[], none⟩

/-- The text behind the first colon outside of all brackets. -/
def afterColon? (depth : Int) (previous : Option Char) : List Char → Option (List Char)
  | [] => none
  | c :: rest =>
    if c = ':' && depth = 0 then some rest
    else afterColon? (depth + nesting previous c) (some c) rest

/-- The type of a parameter; a parameter without a type is its own. -/
def paramType (param : String) : String :=
  let cleaned := match trim param.toList with
    | '.' :: '.' :: '.' :: rest => trim rest
    | text => text
  String.ofList (collapse ((afterColon? 0 none cleaned).getD cleaned))

/-- The bare name of a parameter. -/
def paramName (param : String) : String :=
  String.ofList (trim ((param.toList.takeWhile (· != ':')).filter fun c => c != '?' && c != '.'))

/-- What differs in the type of one parameter. -/
def paramDifference? (base head : String) : Option String :=
  if paramType base = paramType head then none
  else
    some <| s!"parameter '{paramName base}' type changed " ++
      s!"from '{paramType base}' to '{paramType head}'"

/-- What differs in the return type. -/
def returnDifference? : Option String → Option String → Option String
  | none, none => none
  | none, some head => some s!"return type added: '{head}'"
  | some base, none => some s!"return type removed (was '{base}')"
  | some base, some head =>
    if base = head then none else some s!"return type changed from '{base}' to '{head}'"

/-- What differs in the number of parameters. -/
def countDifference? (base head : Nat) : Option String :=
  if base = head then none else some s!"parameter count changed from {base} to {head}"

/-- All that differs between two signatures, in words. -/
def differences (base head : Signature) : List String :=
  (countDifference? base.params.length head.params.length).toList ++
    (base.params.zip head.params).filterMap (fun (b, h) => paramDifference? b h) ++
    (returnDifference? base.returnType head.returnType).toList

end Signature

/-- The outcome of comparing two signatures. -/
structure SignatureDiff where
  changed : Bool
  details : List String
  deriving DecidableEq, Repr

namespace SignatureDiff

/-- The details in one line. -/
def description (diff : SignatureDiff) : String := "; ".intercalate diff.details

/-- Compares two signatures that may be missing. -/
def compare (base head : Option String) : SignatureDiff :=
  match base, head with
  | none, none => ⟨false, ["no signatures to compare"]⟩
  | none, some _ => ⟨true, ["signature added"]⟩
  | some _, none => ⟨true, ["signature removed"]⟩
  | some base, some head =>
    if collapse base.toList = collapse head.toList then ⟨false, ["signatures are identical"]⟩
    else
      match Signature.differences (Signature.ofText base) (Signature.ofText head) with
      | [] => ⟨true, ["signature changed"]⟩
      | details => ⟨true, details⟩

end SignatureDiff

end ChangeImpact
