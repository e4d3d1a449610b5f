import ChangeImpact.Text.Scan

/-!
# Module specifiers

The modules that a text imports are named by quoted specifiers in three forms: an import or
re-export, a call of `import`, and a call of `require`. The forms are found by their shape, each in
a pass over the whole text.
-/

namespace ChangeImpact

open Text

namespace Import

/-- Quotes around a specifier. -/
def isQuote (c : Char) : Bool := c == '\'' || c == '"'

/-- Reads a specifier in quotes; it is not empty and holds no quote. -/
def quoted : Scanner (List Char) := do
  let _ ← Scanner.oneOf ["'", "\""]
  let inside ← Scanner.run1 fun c => !isQuote c
  let _ ← Scanner.oneOf ["'", "\""]
  return inside

/-- Whether the text between the keyword and the specifier is blank, or ends with the word `from`
between blanks, where another blank comes first. -/
def isClause (text : List Char) : Bool :=
  match text with
  | [] => false
  | first :: _ =>
    isBlank first &&
      (text.all isBlank ||
        let back := text.reverse
        match "morf".toList.isPrefixOf? (back.dropWhile isBlank) with
        | some (last :: _ :: _) => back.head?.any isBlank && isBlank last
        | _ => false)

/-- Reads an import or re-export up to the end of its specifier. -/
def staticForm : Scanner (List Char) := do
  let _ ← Scanner.oneOf ["import", "export"]
  let clause ← Scanner.run fun c => !isQuote c && c != ';'
  if isClause clause then quoted else failure

/-- Reads a call of a function with a specifier as its argument. -/
def callForm (function : String) : Scanner (List Char) := do
  Scanner.exactly function
  let _ ← Scanner.blanks
  Scanner.exactly "("
  let _ ← Scanner.blanks
  let specifier ← quoted
  let _ ← Scanner.blanks
  Scanner.exactly ")"
  return specifier

/-- What a form finds in a text. -/
def found (form : Scanner (List Char)) (text : List Char) : List String :=
  (occurrences form text).map fun o => String.ofList o.value

/-- The specifiers in a text: of imports and re-exports, of `import` calls, of `require` calls. -/
def specifiers (text : String) : List String :=
  let chars := text.toList
  found staticForm chars ++ found (callForm "import") chars ++ found (callForm "require") chars

/-- A relative specifier starts at the importing file's folder or at the one above. -/
def isRelative (specifier : String) : Bool :=
  match specifier.toList with
  | '.' :: '/' :: _ => true
  | '.' :: '.' :: '/' :: _ => true
  | _ => false

end Import

end ChangeImpact
