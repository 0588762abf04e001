import InvoiceXml.Schema.Basic

/-!
# Business terms

The index of the fields that carry a business term, with their dotted paths: depth first in the order of
declaration, a field before those of its shape.
-/

namespace InvoiceXml.Schema

mutual

/-- The terms of a field at a path and of the fields in its shape. -/
def fieldTerms (path : String) : Field → List (String × String)
  | { key, shape, .. } =>
    (key.map fun term => (term, path)).toList ++ match shape with
      | some fields => termsBelow path fields
      | none => []

/-- The terms of the fields below a path. -/
def termsBelow (parent : String) : List (String × Field) → List (String × String)
  | [] => []
  | (name, field) :: rest => fieldTerms (below parent name) field ++ termsBelow parent rest

end

/-- The business terms of a schema with the paths of their fields. -/
def terms (schema : Schema) : List (String × String) := termsBelow "" schema

example : terms [("seller", { Field.ofObject [("name", { Field.ofChoice [] with key := some "BT-27" })] with
    key := some "BG-4" })] = [("BG-4", "seller"), ("BT-27", "seller.name")] := by decide +kernel

end InvoiceXml.Schema
