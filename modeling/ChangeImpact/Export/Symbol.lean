import ChangeImpact.Text.Scan

/-!
# Exported symbols

What a module exports: a name, the kind of thing it names, its signature if it has one, and whether
it is the default export. A symbol is identified by its name together with the default mark.
-/

namespace ChangeImpact

open Text

/-- Kinds of exported symbols. -/
inductive SymbolKind
  | function
  | classType
  | variable
  | const
  | type
  | interface
  | enum
  deriving DecidableEq, Repr

/-- The kind as reports write it. -/
def SymbolKind.name : SymbolKind → String
  | .function => "function"
  | .classType => "class"
  | .variable => "variable"
  | .const => "const"
  | .type => "type"
  | .interface => "interface"
  | .enum => "enum"

/-- All kinds. -/
def SymbolKind.all : List SymbolKind :=
  [.function, .classType, .variable, .const, .type, .interface, .enum]

/-- A symbol that a module exports. -/
structure ExportedSymbol where
  name : String
  kind : SymbolKind
  signature : Option String := none
  isDefault : Bool := false
  deriving DecidableEq, Repr

namespace ExportedSymbol

/-- What identifies a symbol in its module. -/
def key (s : ExportedSymbol) : Bool × String := (s.isDefault, s.name)

/-- The signature with blanks collapsed; a missing one counts as empty. -/
def plainSignature (s : ExportedSymbol) : List Char := collapse (s.signature.getD "").toList

/-- A symbol in one line: the default mark, the kind, the name and the signature. -/
def description (s : ExportedSymbol) : String :=
  " ".intercalate ((if s.isDefault then ["default"] else []) ++ [s.kind.name, s.name] ++
    match s.signature with
    | some signature => if signature.isEmpty then [] else [signature]
    | none => [])

end ExportedSymbol

/-- The exports of one file, in the order in which they were found. -/
structure FileExports where
  filePath : String
  symbols : List ExportedSymbol := []
  deriving DecidableEq, Repr

end ChangeImpact
