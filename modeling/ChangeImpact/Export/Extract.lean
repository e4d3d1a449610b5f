import ChangeImpact.Export.Comment
import ChangeImpact.Export.Symbol

/-!
# Extracting exports

The exports of a module are found by their shape in the text without comments. The shapes are looked
for in a fixed order, each over the whole text, and of several symbols with one key the first found
counts.
-/

namespace ChangeImpact

namespace Export

open Text

/-- Reads `export` and the blanks behind it. -/
def exportMark : Scanner Unit := do
  Scanner.exactly "export"
  let _ ← Scanner.blanks1

/-- Reads a word and the blanks behind it. -/
def spaced (word : String) : Scanner Unit := do
  Scanner.exactly word
  let _ ← Scanner.blanks1

/-- Reads `export`, `default` and the blanks behind them. -/
def defaultMark : Scanner Unit := do
  exportMark
  spaced "default"

/-- Reads a return type: a colon and anything up to a brace or a semicolon, at least one character.
The text read includes the blanks before the colon. -/
def returnType : Scanner (List Char) := do
  let lead ← Scanner.blanks
  Scanner.exactly ":"
  let type ← Scanner.run1 fun c => c != '\x7b' && c != ';'
  return lead ++ ':' :: type

/-- Reads what `p` reads if it can, else nothing. -/
def orNothing (p : Scanner (List Char)) : Scanner (List Char) := fun text =>
  match p text with
  | some found => some found
  | none => some ([], text)

/-- Reads parameters up to the first closing parenthesis, and a return type if there is one. -/
def signature : Scanner (List Char) := do
  Scanner.exactly "("
  let inside ← Scanner.run (· != ')')
  Scanner.exactly ")"
  let type ← orNothing returnType
  return '(' :: inside ++ ')' :: type

/-- Reads the word `function`, perhaps after `async`. -/
def functionWord : Scanner Unit := do
  let _ ← Scanner.attempt (spaced "async")
  Scanner.exactly "function"

/-- Reads the name and the signature of a function behind the word. -/
def namedFunction : Scanner (List Char × List Char) := do
  functionWord
  let _ ← Scanner.blanks1
  let name ← Scanner.name
  let _ ← Scanner.blanks
  return (name, ← signature)

/-- Reads a class with its name, perhaps an abstract one. -/
def classWord : Scanner (List Char) := do
  let _ ← Scanner.attempt (spaced "abstract")
  spaced "class"
  Scanner.name

/-- A symbol with its signature in collapsed form. -/
def symbol (name : List Char) (kind : SymbolKind) (signature : Option (List Char))
    (isDefault : Bool) : ExportedSymbol :=
  ⟨String.ofList name, kind, signature.map fun s => String.ofList (collapse s), isDefault⟩

/-- Whether the last ten characters to the left of a place end with `default` and blanks. -/
def followsDefault (before : List Char) : Bool :=
  "tluafed".toList.isPrefixOf ((before.take 10).dropWhile isBlank)

/-- Default exports of named functions. -/
def defaultFunctions (text : List Char) : List ExportedSymbol :=
  (occurrences (do defaultMark; namedFunction) text).map fun o =>
    symbol o.value.1 .function (some o.value.2) true

/-- Default exports of functions without a name. -/
def defaultNamelessFunctions (text : List Char) : List ExportedSymbol :=
  (occurrences (do defaultMark; functionWord; let _ ← Scanner.blanks; signature) text).map fun o =>
    symbol "default".toList .function (some o.value) true

/-- Exports of functions. -/
def functions (text : List Char) : List ExportedSymbol :=
  ((occurrences (do exportMark; namedFunction) text).filter fun o =>
    !followsDefault o.before).map fun o => symbol o.value.1 .function (some o.value.2) false

/-- Default exports of classes. -/
def defaultClasses (text : List Char) : List ExportedSymbol :=
  (occurrences (do defaultMark; classWord) text).map fun o => symbol o.value .classType none true

/-- Exports of classes. -/
def classes (text : List Char) : List ExportedSymbol :=
  ((occurrences (do exportMark; classWord) text).filter fun o =>
    !followsDefault o.before).map fun o => symbol o.value .classType none false

/-- Reads a type annotation that an equals sign or a semicolon ends: at least one character. -/
def declaredType : Scanner (List Char) := do
  Scanner.exactly ":"
  let type ← Scanner.run1 fun c => c != '=' && c != ';'
  let _ ← Scanner.oneOf ["=", ";"]
  return type

/-- Reads the end of a declaration without an annotation. -/
def untyped : Scanner Unit := do
  let _ ← Scanner.oneOf ["=", ";"]

/-- Reads the keyword, the name and the annotation, if any, of an exported variable. -/
def variableForm : Scanner (String × List Char × Option (List Char)) := do
  exportMark
  let keyword ← Scanner.oneOf ["const", "let", "var"]
  let _ ← Scanner.blanks1
  let name ← Scanner.name
  let _ ← Scanner.blanks
  let type ← fun text =>
    match declaredType text with
    | some (type, rest) => some (some type, rest)
    | none => (untyped text).map fun ((), rest) => (none, rest)
  return (keyword, name, type)

/-- Exports of constants and variables. -/
def bindings (text : List Char) : List ExportedSymbol :=
  (occurrences variableForm text).map fun o =>
    let (keyword, name, type) := o.value
    symbol name (if keyword = "const" then .const else .variable) type false

/-- Reads an export of a name behind a keyword. -/
def keywordForm (keyword : String) : Scanner (List Char) := do
  exportMark
  spaced keyword
  Scanner.name

/-- Exports of interfaces. -/
def interfaces (text : List Char) : List ExportedSymbol :=
  (occurrences (keywordForm "interface") text).map fun o => symbol o.value .interface none false

/-- Exports of types; a brace behind the name shows a list instead. -/
def types (text : List Char) : List ExportedSymbol :=
  ((occurrences (keywordForm "type") text).filter fun o =>
    (trimLeft o.after).head? != some '\x7b').map fun o => symbol o.value .type none false

/-- Exports of enumerations. -/
def enums (text : List Char) : List ExportedSymbol :=
  (occurrences (keywordForm "enum") text).map fun o => symbol o.value .enum none false

/-- Reads an export list: whether it is one of types, and its inside, which is not empty. -/
def listForm : Scanner (Bool × List Char) := do
  Scanner.exactly "export"
  let _ ← Scanner.blanks
  let ofTypes ← Scanner.attempt do
    Scanner.exactly "type"
    let _ ← Scanner.blanks
  Scanner.exactly "\x7b"
  let inside ← Scanner.run1 (· != '\x7d')
  Scanner.exactly "\x7d"
  return (ofTypes, inside)

/-- The two names of an item that renames. -/
def renamedItem? (item : List Char) : Option (List Char × List Char) :=
  let form : Scanner (List Char × List Char) := do
    let old ← Scanner.name
    let _ ← Scanner.blanks1
    spaced "as"
    return (old, ← Scanner.name)
  match form item with
  | some (names, []) => some names
  | _ => none

/-- Whether a text is one name. -/
def isName (text : List Char) : Bool := !text.isEmpty && text.all isWord

/-- The symbol of one item of an export list, if the item is one. -/
def listItem? (ofTypes : Bool) (item : List Char) : Option ExportedSymbol :=
  let item := trim item
  let (ofTypes, item) := match "type ".toList.isPrefixOf? item with
    | some rest => (true, trim rest)
    | none => (ofTypes, item)
  let (isDefault, name) := match renamedItem? item with
    | some (old, new) => if new = "default".toList then (true, old) else (false, new)
    | none => (false, item)
  if isName name then some (symbol name (if ofTypes then .type else .variable) none isDefault)
  else none

/-- Exports in lists. -/
def listed (text : List Char) : List ExportedSymbol :=
  (occurrences listForm text).flatMap fun o =>
    (o.value.2.splitOn ',').filterMap (listItem? o.value.1)

/-- Words behind `export default` that open a declaration. -/
def declarationWords : List String :=
  ["function", "class", "abstract", "interface", "type", "enum", "async"]

/-- Reads a default export of a name that opens no declaration. -/
def defaultName : Scanner (List Char) := do
  defaultMark
  let name ← Scanner.name
  if declarationWords.contains (String.ofList name) then failure else return name

/-- Default exports of names. -/
def defaultNames (text : List Char) : List ExportedSymbol :=
  (occurrences defaultName text).map fun o => symbol o.value .variable none true

/-- The passes over a text, in the order in which they are made. -/
def passes : List (List Char → List ExportedSymbol) :=
  [defaultFunctions, defaultNamelessFunctions, functions, defaultClasses, classes, bindings,
    interfaces, types, enums, listed, defaultNames]

/-- The symbols without those whose key an earlier one has. -/
def firstByKey (symbols : List ExportedSymbol) : List ExportedSymbol :=
  symbols.eraseDupsBy fun s kept => s.key == kept.key

/-- The exported symbols of a module's text. -/
def symbols (text : String) : List ExportedSymbol :=
  let plain := withoutComments text.toList
  firstByKey (passes.flatMap fun pass => pass plain)

end Export

/-- The exports of a file with the given text. -/
def FileExports.ofText (path text : String) : FileExports := ⟨path, Export.symbols text⟩

end ChangeImpact
