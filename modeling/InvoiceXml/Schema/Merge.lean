import InvoiceXml.Schema.Basic

/-!
# Layers of schemas

A layer is merged over a schema. What only one side declares is kept. A field of both sides takes the type
of the layer and every other attribute that the layer sets; shapes of objects and arrays are merged in turn.
A field that only the layer declares is put before the first field that follows it in the layer and is
there already, or at the end: so a layer can place new elements ahead of those it inherits.

`mergeFields` recurses on the layer. `mergeField_attributes` says which side each attribute comes from.
-/

namespace InvoiceXml

namespace Field

/-- Whether a field is an object or an array with at least one field in its shape. -/
def hasFields (field : Field) : Bool :=
  field.type.isObjectLike && (match field.shape with
    | some (_ :: _) => true
    | _ => false)

/-- The attributes of a field under those that a layer sets, with the given type and shape. -/
def override (base layer : Field) (shape : Option Schema) : Field where
  type := layer.type
  shape := shape
  required := layer.required.or base.required
  key := layer.key.or base.key
  group := layer.group.or base.group
  sibling := layer.sibling.or base.sibling
  xpath := layer.xpath.or base.xpath
  extras := layer.extras.or base.extras
  transform := layer.transform.or base.transform
  fallback := layer.fallback.or base.fallback

end Field

namespace Schema

/-- The place of the first of the names that is declared. -/
def anchor? (schema : Schema) (names : List String) : Option Nat :=
  names.findSome? schema.position?

/-- Puts a new field before the first of the following names that is declared, or at the end. -/
def place (name : String) (field : Field) (following : List String) (schema : Schema) : Schema :=
  match schema.anchor? following with
  | some i => schema.insertIdx i (name, field)
  | none => schema ++ [(name, field)]

/-- The shape of a merged field. With fields on either side the merged shape is kept as long as the type has
one; otherwise a shape of the layer stands for that of the base. -/
def mergedShape (base layer : Field) (merged : Schema) : Option Schema :=
  if base.hasFields || layer.hasFields then if layer.type.isObjectLike then some merged else none
  else layer.shape.or base.shape

mutual

/-- A field under a layer of it. -/
def mergeField (base : Field) : Field → Field
  | { type, required, shape, key, group, sibling, xpath, extras, transform, fallback } =>
    let layer : Field := { type, required, shape, key, group, sibling, xpath, extras, transform, fallback }
    let merged := match shape with
      | some fields => mergeFields (base.shape.getD []) fields
      | none => base.shape.getD []
    base.override layer (mergedShape base layer merged)

/-- A schema under a layer of it. -/
def mergeFields (base : Schema) : List (String × Field) → Schema
  | [] => base
  | (name, field) :: rest =>
    match base.find? name with
    | some old => mergeFields (base.insert name (mergeField old field)) rest
    | none => mergeFields (base.place name field (rest.map (·.1))) rest

end

/-- A schema under a layer of it. -/
def merge (base layer : Schema) : Schema := mergeFields base layer

/-- The schema of a chain of layers, the lowest first. -/
def ofLayers (layers : List Schema) : Schema := layers.foldl merge []

@[simp] theorem merge_nil (base : Schema) : merge base [] = base := by
  simp [merge, mergeFields]

/-- The type and every attribute but the shape of a merged field. -/
theorem mergeField_attributes (base layer : Field) :
    (mergeField base layer).type = layer.type ∧
      (mergeField base layer).required = layer.required.or base.required ∧
      (mergeField base layer).key = layer.key.or base.key ∧
      (mergeField base layer).group = layer.group.or base.group ∧
      (mergeField base layer).sibling = layer.sibling.or base.sibling ∧
      (mergeField base layer).xpath = layer.xpath.or base.xpath ∧
      (mergeField base layer).extras = layer.extras.or base.extras ∧
      (mergeField base layer).transform = layer.transform.or base.transform ∧
      (mergeField base layer).fallback = layer.fallback.or base.fallback := by
  cases layer
  simp [mergeField, Field.override]

end Schema

end InvoiceXml
