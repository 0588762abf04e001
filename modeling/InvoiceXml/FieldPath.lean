import InvoiceXml.Text.Numeral

/-!
# Field paths

Where a value stands in the data: the names of the fields from the outside in, and the numbers of items of
arrays. `render` writes names with points between them and numbers in brackets; `names` forgets the numbers.
-/

namespace InvoiceXml

/-- A step into the data. -/
inductive Segment where
  | field (name : String)
  | item (number : Nat)
deriving DecidableEq, Repr

/-- The steps from the outside in. -/
abbrev FieldPath := List Segment

namespace FieldPath

/-- The path text with one more step. -/
def extend (text : String) : Segment → String
  | .field name => if text = "" then name else text ++ "." ++ name
  | .item number => text ++ "[" ++ Text.natText number ++ "]"

/-- A path as written. -/
def render (path : FieldPath) : String := path.foldl extend ""

/-- The names of a path, without the numbers. -/
def names (path : FieldPath) : List String :=
  path.filterMap fun
    | .field name => some name
    | .item _ => none

/-- The path of a field below. -/
def field (path : FieldPath) (name : String) : FieldPath := path ++ [.field name]

/-- The path of an item. -/
def item (path : FieldPath) (number : Nat) : FieldPath := path ++ [.item number]

theorem names_field (path : FieldPath) (name : String) : (path.field name).names = path.names ++ [name] := by
  simp [names, field]

theorem names_item (path : FieldPath) (number : Nat) : (path.item number).names = path.names := by
  simp [names, item]

example : render [.field "lines", .item 2, .field "id"] = "lines[2].id" := by decide +kernel

end FieldPath

end InvoiceXml
