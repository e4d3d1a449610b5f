import ChangeImpact.Git.QuotedPath
import ChangeImpact.Text.Scan

/-!
# Rename notation

A renamed file is printed as `old => new`, or with the common parts of both paths written once as
`lead{old => new}trail`. In the first form each side is quoted separately if it needs quotes.
-/

namespace ChangeImpact

open Text

/-- The new path of a file and, if it was renamed or copied, its old path. -/
structure RenamedPath where
  path : String
  oldPath : Option String
  deriving DecidableEq, Repr

namespace RenamedPath

/-- The arrow between the two sides. -/
def arrow : List Char := " => ".toList

/-- The text with every run of slashes replaced by one slash. -/
def squeezeSlashes : List Char → List Char
  | '/' :: '/' :: rest => squeezeSlashes ('/' :: rest)
  | c :: rest => c :: squeezeSlashes rest
  | [] => []

/-- The text without a newline at its very end. -/
def withoutLastNewline (text : List Char) : List Char :=
  match text.reverse with
  | '\n' :: rest => rest.reverse
  | _ => text

/-- The parts of the brace form: before the brace, old, new, and after the closing brace. -/
def braceParts? (text : List Char) :
    Option (List Char × List Char × List Char × List Char) := do
  let (lead, rest) ← cutAt? ['\x7b'] text
  let (old, rest) ← cutAt? arrow rest
  let (new, trail) ← cutAt? ['\x7d'] rest
  return (lead, old, new, trail)

/-- The two sides of the plain form, neither of which is empty. -/
def plainSides? : List Char → Option (List Char × List Char)
  | [] => none
  | c :: rest =>
    match cutAt? arrow rest with
    | some (left, right) => if right.isEmpty then none else some (c :: left, right)
    | none => none

/-- The paths that a printed path stands for; none if an escape in it is no byte. Rename notation
lies on one line. -/
def ofPrinted (printed : String) : Option RenamedPath :=
  let text := withoutLastNewline printed.toList
  if text.contains '\n' then some ⟨printed, none⟩
  else
    match braceParts? text with
    | some (lead, old, new, trail) =>
      some ⟨String.ofList (squeezeSlashes (lead ++ new ++ trail)),
        some (String.ofList (squeezeSlashes (lead ++ old ++ trail)))⟩
    | none =>
      match plainSides? text with
      | some (left, right) => do
        let new ← Git.unquote (String.ofList right)
        let old ← Git.unquote (String.ofList left)
        return ⟨new, some old⟩
      | none => some ⟨printed, none⟩

end RenamedPath

end ChangeImpact
