import InvoiceXml.Data.Compact
import InvoiceXml.Path.Reader
import InvoiceXml.Text.Quoted

/-!
# What can be wrong with schemas

Paths that cannot be read, fields that do not fit together, definitions of the wrong form, and validators
that nobody knows.
-/

namespace InvoiceXml

/-- Why a schema does not compose. -/
inductive CompositionFault where
  | notAbsolute (xpath : String)
  | relativeWithoutOwner (extra : String)
  | misplacedSibling
  | duplicateGroup (group declaredBy : String)
  | unknownSibling (sibling : String)
  | siblingScope (sibling : String)
  | unboundMarker (marker xpath : String)
deriving DecidableEq, Repr

/-- Why the definition of a field cannot be read. -/
inductive FieldFault where
  | notAField (found : String)
  | wrongKind (found expected : String)
  | unknownKey (key : String)
  | repeatedKey (key : String)
  | typeForm
  | missingType
  | noValues
  | tooManyValues (count : Nat)
  | shapeMismatch
  | extraForm (path : String) (value : Data)

/-- Why a definition cannot be read. -/
inductive FormatFault where
  | notJson
  | notYaml
  | field (path : String) (fault : FieldFault)

/-- What can be wrong with a schema. -/
inductive SchemaError where
  | invalidPath (xpath : String) (fault : PathFault)
  | composition (path : String) (fault : CompositionFault)
  | format (fault : FormatFault)
  | unknownValidator (name path : String)

namespace CompositionFault

/-- The words for a fault. -/
def message : CompositionFault → String
  | notAbsolute xpath => "xpath '" ++ xpath ++ "' must be absolute"
  | relativeWithoutOwner extra => "relative additional xml '" ++ extra ++ "' needs an xpath on the field"
  | misplacedSibling => "sibling is only allowed on an object[] field with a group"
  | duplicateGroup group declaredBy => "group '" ++ group ++ "' is already declared by '" ++ declaredBy ++ "'"
  | unknownSibling sibling => "sibling group '" ++ sibling ++ "' is unknown or declared later"
  | siblingScope sibling => "sibling group '" ++ sibling ++ "' lives in a different repetition scope"
  | unboundMarker marker xpath =>
    "group marker '[" ++ marker ++ "]' in '" ++ xpath ++ "' is not bound by an enclosing object[] field"

end CompositionFault

namespace FieldFault

/-- The keys of a field definition, as they are listed to the reader. -/
def knownKeys : List String :=
  ["type", "required", "key", "group", "sibling", "xpath", "additionalXml", "additional_xml", "defaultValue",
    "default_value", "shape"]

/-- A name between grave accents. -/
def marked (name : String) : String := "\x60" ++ name ++ "\x60"

/-- The words for a fault. -/
def message : FieldFault → String
  | notAField found => "invalid type: " ++ found ++ ", expected struct FieldFile"
  | wrongKind found expected => "invalid type: " ++ found ++ ", expected " ++ expected
  | unknownKey key =>
    "unknown field " ++ marked key ++ ", expected one of " ++ Text.joined ", " (knownKeys.map marked)
  | repeatedKey key => "duplicate field " ++ marked key
  | typeForm => "data did not match any variant of untagged enum TypeFile"
  | missingType => "missing field " ++ marked "type"
  | noValues => "invalid length 0, expected struct FieldFile with 9 elements"
  | tooManyValues count =>
    "invalid length " ++ Text.natText count ++ ", expected fewer elements in array"
  | shapeMismatch => "shape must be given exactly for object and object[] types"
  | extraForm path value =>
    "additional xml '" ++ path ++ "' must be a string or boolean, got " ++ value.compact

end FieldFault

namespace FormatFault

/-- The words for a fault. -/
def message : FormatFault → String
  | notJson => "JSON parse error"
  | notYaml => "YAML parse error"
  | field path fault => "field '" ++ path ++ "': " ++ fault.message

end FormatFault

namespace SchemaError

/-- The words for an error. -/
def message : SchemaError → String
  | invalidPath xpath fault => "Invalid xpath '" ++ xpath ++ "': " ++ fault.message
  | composition path fault => "Schema composition failed at '" ++ path ++ "': " ++ fault.message
  | format fault => "Invalid schema format: " ++ fault.message
  | unknownValidator name path => "Unknown validator '" ++ name ++ "' for field '" ++ path ++ "'"

/-- Reads a path that a schema mentions. -/
def readPath (xpath : String) : Except SchemaError Path :=
  match Path.read xpath with
  | .ok path => .ok path
  | .error fault => .error (.invalidPath xpath fault)

end SchemaError

end InvoiceXml
