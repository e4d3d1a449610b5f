import ChangeImpact.Number.Binary64

/-!
# JSON values

A value keeps integers of any size apart from other numbers, and keeps the fields of an object in
order, each name once.
-/

namespace ChangeImpact

/-- A JSON value. -/
inductive Json
  | null
  | bool (b : Bool)
  | int (n : Int)
  | real (x : Extended)
  | string (s : String)
  | list (items : List Json)
  | object (fields : List (String × Json))

namespace Json

instance : Inhabited Json := ⟨.null⟩

/-- Fields with one more at the end; a name that is already there keeps its place and takes the new
value. -/
def setField (name : String) (value : Json) : List (String × Json) → List (String × Json)
  | [] => [(name, value)]
  | (other, old) :: rest =>
    if other = name then (name, value) :: rest else (other, old) :: setField name value rest

/-- The value of a field of an object. -/
def field? (value : Json) (name : String) : Option Json :=
  match value with
  | .object fields => fields.lookup name
  | _ => none

/-- The list of texts. -/
def texts (items : List String) : Json := .list (items.map .string)

/-- A text, or null for none. -/
def textOrNull : Option String → Json
  | some s => .string s
  | none => .null

end Json

end ChangeImpact
