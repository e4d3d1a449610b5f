import ChangeImpact.Text.Scan

/-!
# Comments

Comments are removed in two passes: block comments first, then what follows a double slash on its
line. A block comment that is never closed is kept.
-/

namespace ChangeImpact.Export

open Text

/-- Reads a block comment, up to the first closing mark behind its opening mark. -/
def blockComment : Scanner Unit := do
  Scanner.exactly "/*"
  fun text => (cutAt? "*/".toList text).map fun (_, after) => ((), after)

/-- Reads a line comment, up to the end of its line. -/
def lineComment : Scanner Unit := do
  Scanner.exactly "//"
  let _ ← Scanner.run (· != '\n')

/-- The text without comments. -/
def withoutComments (text : List Char) : List Char := erase lineComment (erase blockComment text)

/-- The text of a module without comments. -/
def stripComments (text : String) : String := String.ofList (withoutComments text.toList)

end ChangeImpact.Export
