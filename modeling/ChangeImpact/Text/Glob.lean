/-!
# Glob patterns

A pattern matches a whole name: `*` stands for any text, `?` for one character, and `[…]` for one
character of a set, or not of it after `!`. A bracket that is never closed stands for itself. In a
set a hyphen between two characters makes a range, and a range that runs backwards is dropped
together with its two ends.
-/

namespace ChangeImpact.Text

namespace Glob

/-- One element of a pattern. -/
inductive Atom
  | anyText
  | anyChar
  | exactly (c : Char)
  | set (negated : Bool) (ranges : List (Char × Char))
  deriving DecidableEq, Repr

/-- Cuts the inside of a set at the hyphens that make ranges. A cut is never right after the last
cut, nor right after the first character that follows it, so a hyphen there stands for itself. The
first `hold` characters are not looked at. -/
def chunksFrom (current : List Char) : (hold : Nat) → List Char → List (List Char)
  | _, [] => [current.reverse]
  | hold + 1, c :: rest => chunksFrom (c :: current) hold rest
  | 0, c :: rest =>
    if c = '-' then current.reverse :: chunksFrom [] 2 rest
    else chunksFrom (c :: current) 0 rest

/-- The chunks of a set's inside between its ranges; a hyphen at the very end stands for itself. -/
def chunks (negated : Bool) (inside : List Char) : List (List Char) :=
  let all := chunksFrom [] (if negated then 2 else 1) inside
  match all.reverse with
  | [] :: last :: before => ((last ++ ['-']) :: before).reverse
  | _ => all

/-- Drops the ranges that run backwards, from the right: the last character of one chunk and the
first of the next are removed and the chunks are joined. -/
def dropBackward : List (List Char) → List (List Char)
  | [] => []
  | left :: rest =>
    match dropBackward rest with
    | [] => [left]
    | right :: more =>
      match left.getLast?, right.head? with
      | some a, some b =>
        if b < a then (left.dropLast ++ right.tail) :: more else left :: right :: more
      | _, _ => left :: right :: more

/-- The ranges between neighbouring chunks. -/
def betweenChunks : List (List Char) → List (Char × Char)
  | left :: right :: more =>
    (match left.getLast?, right.head? with
      | some a, some b => [(a, b)]
      | _, _ => []) ++ betweenChunks (right :: more)
  | _ => []

/-- The atom for a set with the given inside, which holds its `!` if it is negated. -/
def setAtom (inside : List Char) : Atom :=
  let parts :=
    if inside.contains '-' then dropBackward (chunks (inside.head? == some '!') inside)
    else [inside]
  match parts with
  | ('!' :: first) :: more =>
    .set true (((first :: more).flatten.map fun c => (c, c)) ++ betweenChunks (first :: more))
  | _ => .set false ((parts.flatten.map fun c => (c, c)) ++ betweenChunks parts)

/-- The inside of a set, up to a `]` that is not its first character, and the number of characters
read with that `]`. -/
def setInside? (text : List Char) : Option (List Char × Nat) :=
  let lead := match text with
    | '!' :: ']' :: _ => 2
    | '!' :: _ => 1
    | ']' :: _ => 1
    | _ => 0
  let inside := text.take lead ++ (text.drop lead).takeWhile (· != ']')
  if inside.length < text.length then some (inside, inside.length + 1) else none

/-- The atoms of a pattern past its next `skip` characters. -/
def atomsFrom : (skip : Nat) → List Char → List Atom
  | _, [] => []
  | skip + 1, _ :: rest => atomsFrom skip rest
  | 0, '*' :: rest => .anyText :: atomsFrom 0 rest
  | 0, '?' :: rest => .anyChar :: atomsFrom 0 rest
  | 0, '[' :: rest =>
    match setInside? rest with
    | some (inside, length) => setAtom inside :: atomsFrom length rest
    | none => .exactly '[' :: atomsFrom 0 rest
  | 0, c :: rest => .exactly c :: atomsFrom 0 rest

/-- The atoms of a pattern. -/
def atoms (pattern : List Char) : List Atom := atomsFrom 0 pattern

/-- Whether some end of the text, the whole and the empty one included, satisfies `p`. -/
def anyEnd (p : List Char → Bool) : List Char → Bool
  | [] => p []
  | c :: rest => p (c :: rest) || anyEnd p rest

/-- Whether a text is matched by a list of atoms. -/
def matchesAtoms : List Atom → List Char → Bool
  | [], text => text.isEmpty
  | .anyText :: more, text => anyEnd (matchesAtoms more) text
  | .anyChar :: more, text => match text with
    | _ :: rest => matchesAtoms more rest
    | [] => false
  | .exactly c :: more, text => match text with
    | d :: rest => c == d && matchesAtoms more rest
    | [] => false
  | .set negated ranges :: more, text => match text with
    | d :: rest => (ranges.any (fun (a, b) => a ≤ d && d ≤ b) != negated) && matchesAtoms more rest
    | [] => false

end Glob

/-- Whether a name matches a pattern. -/
def globMatches (pattern name : String) : Bool :=
  Glob.matchesAtoms (Glob.atoms pattern.toList) name.toList

end ChangeImpact.Text
