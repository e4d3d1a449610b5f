import ChangeImpact.Export.Extract

/-!
# Comparing exports

Two versions of a module are compared symbol by symbol: a symbol of the base version is removed,
modified or unchanged, and a symbol of the head version that the base lacks is added. A symbol is
modified if its kind or its signature in collapsed form differs.
-/

namespace ChangeImpact

/-- How the exports of a module changed. -/
structure ExportDiff where
  removed : List ExportedSymbol := []
  added : List ExportedSymbol := []
  modified : List (ExportedSymbol × ExportedSymbol) := []
  deriving DecidableEq, Repr

namespace ExportDiff

/-- The symbol of a given key. -/
def find? (symbols : List ExportedSymbol) (key : Bool × String) : Option ExportedSymbol :=
  symbols.find? fun s => s.key == key

/-- Whether two symbols of one key differ. -/
def differs (before after : ExportedSymbol) : Bool :=
  before.kind != after.kind || before.plainSignature != after.plainSignature

/-- The difference between two lists of symbols. -/
def ofSymbols (base head : List ExportedSymbol) : ExportDiff where
  removed := base.filter fun s => (find? head s.key).isNone
  added := head.filter fun s => (find? base s.key).isNone
  modified := base.filterMap fun before =>
    match find? head before.key with
    | some after => if differs before after then some (before, after) else none
    | none => none

/-- The difference between two versions of a module. -/
def ofTexts (base head : String) : ExportDiff :=
  ofSymbols (Export.symbols base) (Export.symbols head)

/-- Whether nothing changed. -/
def isEmpty (diff : ExportDiff) : Bool :=
  diff.removed.isEmpty && diff.added.isEmpty && diff.modified.isEmpty

end ExportDiff

end ChangeImpact
