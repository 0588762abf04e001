import InvoiceXml.Data.Compact
import InvoiceXml.FieldPath
import InvoiceXml.Schema.Basic

/-!
# Validation

Checks data against a schema, depth first in the order of declaration, and gives the data in normal form or
the first error. Null counts as missing. Objects and arrays that are missing count as empty, so they are
always there in the result; a scalar that is missing and need not be given is left out; everything that the
schema does not declare is left out.

`validateFields` recurses on the schema; the items of an array are all checked against the same shape.
-/

namespace InvoiceXml

/-- What is wrong with the value of a field. -/
inductive ValidationFault where
  | inputKind (found : String)
  | invalidType
  | issues (issues : List Issue)
  | notMember (shown : Data)
  | notObject
  | notArray

/-- The first thing that is wrong with data, and where. -/
structure ValidationError where
  path : FieldPath
  fault : ValidationFault
  /-- The business term of the field, where a value was refused. -/
  key : Option String := none

namespace ValidationError

/-- What the validator of the field reported. -/
def issues (error : ValidationError) : List Issue :=
  match error.fault with
  | .issues issues => issues
  | _ => []

/-- A business term in brackets. -/
def keySuffix : Option String → String
  | some key => " (" ++ key ++ ")"
  | none => ""

/-- The words for an error. -/
def message (error : ValidationError) : String :=
  let path := "\"" ++ error.path.render ++ "\""
  match error.fault with
  | .inputKind found => "Expected input to be an object but got \"" ++ found ++ "\""
  | .invalidType => "Invalid field type for field " ++ path
  | .issues issues =>
    "Invalid value for field " ++ path ++ keySuffix error.key ++ ": " ++
      Text.joined ", " (issues.map Issue.message)
  | .notMember shown => "Invalid value for field " ++ path ++ ": " ++ shown.compact
  | .notObject => "Expected field " ++ path ++ " to be an object"
  | .notArray => "Expected field " ++ path ++ " to be an array"

end ValidationError

namespace Validation

/-- Whether data is an object. -/
def isObject : Data → Bool
  | .obj _ => true
  | _ => false

/-- A scalar as its validator gives it; the validator sees null where there is no value. -/
def scalar (path : FieldPath) (key : Option String) (validator : Validator) (value : Option Data) :
    Except ValidationError Data :=
  match validator.check (value.getD .null) with
  | .ok normal => .ok normal
  | .error issues => .error { path, fault := .issues issues, key }

/-- A text of a closed choice. -/
def choice (path : FieldPath) (key : Option String) (members : List String) (value : Option Data) :
    Except ValidationError Data :=
  if members.isEmpty then .error { path, fault := .invalidType }
  else
    match value with
    | some (.str s) =>
      if members.contains s then .ok (.str s) else .error { path, fault := .notMember (.str s), key }
    | value => .error { path, fault := .notMember (value.getD .null), key }

/-- The items of an array, each an object, null counting as an empty one; `check` is what is done with the
members of each. -/
def items (check : FieldPath → Data → Except ValidationError Data) (path : FieldPath) :
    (number : Nat) → List Data → Except ValidationError (List Data)
  | _, [] => .ok []
  | number, item :: rest => do
    let item := if item.isNull then .obj [] else item
    if !isObject item then .error { path := path.item number, fault := .notObject }
    else
      let first ← check (path.item number) item
      let others ← items check path (number + 1) rest
      .ok (first :: others)

/-- Whether a field without a value is passed over: it is a scalar that need not be given. -/
def mayOmit (field : Field) : Bool := !field.isRequired && !field.type.isObjectLike

mutual

/-- The value of a field in normal form, if the field gives one. -/
def validateField (path : FieldPath) (value : Option Data) : Field → Except ValidationError (Option Data)
  | { type, shape, key, .. } =>
    match type, shape with
    | .scalar _, some _ => .error { path, fault := .invalidType }
    | .choice _, some _ => .error { path, fault := .invalidType }
    | .scalar validator, none => (scalar path key validator value).map some
    | .choice members, none => (choice path key members value).map some
    | .object, none => .ok none
    | .objectArray, none => .ok none
    | .object, some fields =>
      let data := value.getD (.obj [])
      if !isObject data then .error { path, fault := .notObject }
      else do
        let members ← validateFields path data fields
        .ok (some (.obj (Data.membersOf members)))
    | .objectArray, some fields =>
      match value.getD (.arr []) with
      | .arr data => do
        let checked ← items (fun path item => do
          let members ← validateFields path item fields
          .ok (.obj (Data.membersOf members))) path 0 data
        .ok (some (.arr checked))
      | _ => .error { path, fault := .notArray }

/-- The values of the fields of an object in normal form, in order of declaration. -/
def validateFields (path : FieldPath) (input : Data) :
    List (String × Field) → Except ValidationError (List (String × Data))
  | [] => .ok []
  | (name, field) :: rest => do
    let value := input.present? name
    if value.isNone ∧ mayOmit field then validateFields path input rest
    else
      let normal ← validateField (path.field name) value field
      let others ← validateFields path input rest
      .ok ((normal.map fun normal => (name, normal)).toList ++ others)

end

end Validation

namespace Schema

/-- The data in normal form, or the first error. -/
def validate (schema : Schema) (input : Data) : Except ValidationError Data :=
  if !Validation.isObject input then .error { path := [], fault := .inputKind input.kindName }
  else do
    let members ← Validation.validateFields [] input schema
    .ok (.obj (Data.membersOf members))

end Schema

end InvoiceXml
