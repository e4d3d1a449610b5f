import ChangeImpact.Text.Lowercase
import ChangeImpact.Text.Scan

/-!
# Terminal markup

Text for the terminal may hold style tags in square brackets. A terminal without styles shows the
text without its tags. A tag starts with a small letter or one of three marks and runs to the next
closing bracket; behind an odd number of backslashes it is shown as it stands. A closing tag has to
close an open one.
-/

namespace ChangeImpact.Terminal

open Text

/-- A closing tag that closes nothing. -/
inductive MarkupFault
  | unmatched (tag : String)
  deriving DecidableEq, Repr

/-- First characters of a tag. -/
def opensTag (c : Char) : Bool := ('a' ≤ c && c ≤ 'z') || c == '#' || c == '/' || c == '@'

/-- Reads backslashes and a tag behind them: the number of backslashes and the inside of the tag. -/
def tag : Scanner (Nat × List Char) := do
  let slashes ← Scanner.run (· == '\\')
  Scanner.exactly "["
  let inside ← Scanner.run fun c => c != '[' && c != ']'
  Scanner.exactly "]"
  if inside.head?.any opensTag then return (slashes.length, inside) else failure

/-- A part of a marked-up text: plain text, or a tag. -/
inductive Part
  | plain (text : List Char)
  | tag (inside : List Char)
  deriving DecidableEq, Repr

/-- What stands for a tag behind some backslashes: half of them, and the tag itself as plain text if
one is left over. -/
def tagParts (slashes : Nat) (inside : List Char) : List Part :=
  (if slashes / 2 = 0 then [] else [.plain (List.replicate (slashes / 2) '\\')]) ++
    if slashes % 2 = 1 then [.plain ('[' :: inside ++ [']'])] else [.tag inside]

/-- The plain text collected so far, last character first, as a part. -/
def plainPart (collected : List Char) : List Part :=
  if collected.isEmpty then [] else [.plain collected.reverse]

/-- The parts of a text past its next `skip` characters. -/
def partsFrom (collected : List Char) : (skip : Nat) → List Char → List Part
  | _, [] => plainPart collected
  | skip + 1, _ :: rest => partsFrom collected skip rest
  | 0, c :: rest =>
    match tag (c :: rest) with
    | some ((slashes, inside), after) =>
      plainPart collected ++ tagParts slashes inside ++
        partsFrom [] (rest.length - after.length) rest
    | none => partsFrom (c :: collected) 0 rest

/-- Plain text as it is shown: a backslash before an opening bracket is dropped, and so are the
control characters that move the cursor. -/
def shown : List Char → List Char
  | '\\' :: '[' :: rest => '[' :: shown rest
  | c :: rest =>
    if c.toNat == 7 || c.toNat == 8 || (11 ≤ c.toNat && c.toNat ≤ 13) then shown rest
    else c :: shown rest
  | [] => []

/-- The name of a tag: what stands before an equals sign, in lower case. -/
def tagName (inside : List Char) : List Char := lower (trim (inside.takeWhile (· != '=')))

/-- The open tags without the innermost one of a given name. -/
def closeTag? (name : List Char) : List (List Char) → Option (List (List Char))
  | [] => none
  | innermost :: outer =>
    if innermost = name then some outer else (closeTag? name outer).map (innermost :: ·)

/-- The text that some parts show, below some open tags. -/
def showParts (opened : List (List Char)) : List Part → Except MarkupFault (List Char)
  | [] => .ok []
  | .plain text :: rest => (showParts opened rest).map (shown text ++ ·)
  | .tag ('/' :: inside) :: rest =>
    match tagName inside with
    | [] =>
      match opened with
      | [] => .error (.unmatched "/")
      | _ :: outer => showParts outer rest
    | name =>
      match closeTag? name opened with
      | some outer => showParts outer rest
      | none => .error (.unmatched (String.ofList inside))
  | .tag inside :: rest => showParts (tagName inside :: opened) rest

/-- One line with every tab replaced by blanks up to the next multiple of eight columns. -/
def expandTabs (column : Nat) : List Char → List Char
  | [] => []
  | '\t' :: rest =>
    let width := 8 - column % 8
    List.replicate width ' ' ++ expandTabs (column + width) rest
  | '\n' :: rest => '\n' :: expandTabs 0 rest
  | c :: rest => c :: expandTabs (column + 1) rest

/-- The text that a terminal without styles shows for a marked-up text. -/
def plainText (markup : String) : Except MarkupFault String :=
  if markup.toList.contains '[' then
    (showParts [] (partsFrom [] 0 markup.toList)).map fun text =>
      String.ofList (expandTabs 0 text)
  else .ok (String.ofList (expandTabs 0 (markup.toList.filter fun c =>
    !(c.toNat == 7 || c.toNat == 8 || (11 ≤ c.toNat && c.toNat ≤ 13)))))

end ChangeImpact.Terminal
