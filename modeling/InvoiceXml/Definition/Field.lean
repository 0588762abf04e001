import InvoiceXml.Data.Record
import InvoiceXml.FieldPath
import InvoiceXml.Schema.Basic
import InvoiceXml.Schema.Error
import InvoiceXml.Validator.Standard

/-!
# The definition of a field

A definition gives the attributes of a field as an object, each under its name or an alias, or as an array of
values in the order of `Attribute.all`. Its attributes are read in the order in which they stand, so the
first that is unknown, given again, or of the wrong form decides the fault.

`attributesOf` gives the attributes with their values, and `FieldDefinition.ofAttributes` what they say. A
value of null says the same as leaving the attribute out.
-/

namespace InvoiceXml

/-- The attributes of a field definition. -/
inductive Attribute where
  | type
  | required
  | key
  | group
  | sibling
  | xpath
  | extras
  | fallback
  | shape
deriving DecidableEq, Repr

/-- The type of a field as a definition names it. -/
inductive TypeForm where
  /-- A validator, an object, or an array of objects. -/
  | name (name : String)
  | choice (members : List String)
deriving DecidableEq, Repr

namespace TypeForm

/-- A type is named by a text or given by a list of texts. -/
def ofData? : Data → Option TypeForm
  | .str s => some (name s)
  | .arr items => (items.mapM Record.text?).map choice
  | _ => none

end TypeForm

namespace Attribute

/-- All attributes, in the order of a definition written as an array. -/
def all : List Attribute := [type, required, key, group, sibling, xpath, extras, fallback, shape]

/-- The name of an attribute. -/
def name : Attribute → String
  | type => "type"
  | required => "required"
  | key => "key"
  | group => "group"
  | sibling => "sibling"
  | xpath => "xpath"
  | extras => "additional_xml"
  | fallback => "default_value"
  | shape => "shape"

/-- The attribute of a name or an alias. -/
def ofName? : String → Option Attribute
  | "additionalXml" => some extras
  | "defaultValue" => some fallback
  | name => all.find? fun attr => attr.name = name

/-- The words for data of the wrong kind. -/
def kindText : Data → String
  | .null => "null"
  | .bool b => "boolean " ++ FieldFault.marked (ExtraValue.flagText b)
  | .num (.int n) => "integer " ++ FieldFault.marked (Num.int n).dataText
  | .num (.float x) => "floating point " ++ FieldFault.marked (Num.float x).dataText
  | .str s => "string " ++ Text.quoted s
  | .arr _ => "sequence"
  | .obj _ => "map"

/-- What is wrong with data that should be a truth value. -/
def flagFault? : Data → Option FieldFault
  | .null | .bool _ => none
  | data => some (.wrongKind (kindText data) "a boolean")

/-- What is wrong with data that should be a text. -/
def textFault? : Data → Option FieldFault
  | .null | .str _ => none
  | data => some (.wrongKind (kindText data) "a string")

/-- What is wrong with data that should be an object. -/
def objectFault? : Data → Option FieldFault
  | .null | .obj _ => none
  | data => some (.wrongKind (kindText data) "a map")

/-- What is wrong with the value of an attribute. -/
def fault? : Attribute → Data → Option FieldFault
  | type, data => if (TypeForm.ofData? data).isSome then none else some .typeForm
  | required, data => flagFault? data
  | key, data | group, data | sibling, data | xpath, data => textFault? data
  | extras, data | shape, data => objectFault? data
  | fallback, _ => none

/-- The value of an attribute, where null counts as missing. -/
def value? (attr : Attribute) (given : List (Attribute × Data)) : Option Data :=
  (given.lookup attr).filter fun value => !value.isNull

end Attribute

/-- What a definition says about a field, its shape apart. -/
structure FieldDefinition where
  type : TypeForm
  required : Option Bool := none
  key : Option String := none
  group : Option String := none
  sibling : Option String := none
  xpath : Option String := none
  extras : Option (List (String × Data)) := none
  fallback : Option Data := none

namespace FieldDefinition

/-- The attributes of an object, of which some are given already. -/
def attributesOf (seen : List Attribute) : List (String × Data) → Except FieldFault (List (Attribute × Data))
  | [] => .ok []
  | (key, value) :: rest =>
    match Attribute.ofName? key with
    | none => .error (.unknownKey key)
    | some attr =>
      if attr ∈ seen then .error (.repeatedKey attr.name)
      else match attr.fault? value with
        | some fault => .error fault
        | none => (attributesOf (attr :: seen) rest).map ((attr, value) :: ·)

/-- The attributes of an array of so many values; the last ones may be left out. -/
def attributesOfItems (count : Nat) : List Attribute → List Data → Except FieldFault (List (Attribute × Data))
  | _, [] => .ok []
  | [], _ :: _ => .error (.tooManyValues count)
  | attr :: attrs, value :: rest =>
    match attr.fault? value with
    | some fault => .error fault
    | none => (attributesOfItems count attrs rest).map ((attr, value) :: ·)

/-- The attributes of a definition. -/
def attributes : Data → Except FieldFault (List (Attribute × Data))
  | .obj members => attributesOf [] members
  | .arr [] => .error .noValues
  | .arr items => attributesOfItems items.length Attribute.all items
  | data => .error (.notAField (Attribute.kindText data))

/-- A truth value. -/
def flag? : Data → Option Bool
  | .bool b => some b
  | _ => none

/-- The members of an object. -/
def members? : Data → Option (List (String × Data))
  | .obj members => some members
  | _ => none

/-- What attributes say about a field; its type must be there. -/
def ofAttributes (given : List (Attribute × Data)) : Except FieldFault FieldDefinition :=
  match (given.lookup .type).bind TypeForm.ofData? with
  | none => .error .missingType
  | some type => .ok {
      type
      required := (Attribute.required.value? given).bind flag?
      key := (Attribute.key.value? given).bind Record.text?
      group := (Attribute.group.value? given).bind Record.text?
      sibling := (Attribute.sibling.value? given).bind Record.text?
      xpath := (Attribute.xpath.value? given).bind Record.text?
      extras := (Attribute.extras.value? given).bind members?
      fallback := Attribute.fallback.value? given }

/-- Reads what a definition says about a field. -/
def ofData (data : Data) : Except FieldFault FieldDefinition := attributes data >>= ofAttributes

/-- The type of a field. -/
def typeOf (validators : Validators) (path : FieldPath) : TypeForm → Except SchemaError FieldType
  | .choice members => .ok (.choice members)
  | .name "object" => .ok .object
  | .name "object[]" => .ok .objectArray
  | .name name =>
    match validators.find? name with
    | some validator => .ok (.scalar validator)
    | none => .error (.unknownValidator name path.render)

/-- The fixed extras of a field: texts and truth values. -/
def extrasOf : List (String × Data) → Except FieldFault (List (String × ExtraValue))
  | [] => .ok []
  | (path, .str s) :: rest => (extrasOf rest).map ((path, .text s) :: ·)
  | (path, .bool b) :: rest => (extrasOf rest).map ((path, .flag b) :: ·)
  | (path, data) :: _ => .error (.extraForm path data)

/-- A fault in the definition of a field. -/
def located {α : Type} (path : FieldPath) : Except FieldFault α → Except SchemaError α
  | .ok a => .ok a
  | .error fault => .error (.format (.field path.render fault))

/-- The field of a definition whose shape is read already. -/
def field (validators : Validators) (path : FieldPath) (definition : FieldDefinition)
    (shape : Except SchemaError (Option Schema)) : Except SchemaError Field := do
  let type ← typeOf validators path definition.type
  let shape ← shape
  if type.isObjectLike ≠ shape.isSome then .error (.format (.field path.render .shapeMismatch))
  else
    let extras ← match definition.extras with
      | some entries => (located path (extrasOf entries)).map some
      | none => .ok none
    .ok {
      type, shape, extras
      required := definition.required
      key := definition.key
      group := definition.group
      sibling := definition.sibling
      xpath := definition.xpath
      fallback := definition.fallback }

/-- Which value of a definition written as an array is its shape. -/
def shapePlace : Nat := Attribute.all.idxOf .shape

mutual

/-- Reads the field of a definition. -/
def readField (validators : Validators) (path : FieldPath) : Data → Except SchemaError Field
  | .obj members => do
    let definition ← located path (ofData (.obj members))
    definition.field validators path (readShape validators path members)
  | .arr items => do
    let definition ← located path (ofData (.arr items))
    definition.field validators path (readShapeAt validators path shapePlace items)
  | data => .error (.format (.field path.render (.notAField (Attribute.kindText data))))

/-- Reads the shape among the members of a definition, if it is given. -/
def readShape (validators : Validators) (path : FieldPath) :
    List (String × Data) → Except SchemaError (Option Schema)
  | [] => .ok none
  | (key, value) :: rest =>
    if key = Attribute.shape.name then readFieldsOf validators path value else readShape validators path rest

/-- Reads the shape at a place of an array, if it is given. -/
def readShapeAt (validators : Validators) (path : FieldPath) :
    Nat → List Data → Except SchemaError (Option Schema)
  | _, [] => .ok none
  | 0, value :: _ => readFieldsOf validators path value
  | place + 1, _ :: rest => readShapeAt validators path place rest

/-- Reads the definitions that an object holds. -/
def readFieldsOf (validators : Validators) (path : FieldPath) : Data → Except SchemaError (Option Schema)
  | .obj members => (readFields validators path members).map some
  | _ => .ok none

/-- Reads definitions under their names. -/
def readFields (validators : Validators) (path : FieldPath) : List (String × Data) → Except SchemaError Schema
  | [] => .ok []
  | (name, data) :: rest => do
    let field ← readField validators (path.field name) data
    let rest ← readFields validators path rest
    .ok ((name, field) :: rest)

end

end FieldDefinition

end InvoiceXml
