import InvoiceXml.Data.Record
import InvoiceXml.Definition.Basic
import InvoiceXml.Definition.Field
import InvoiceXml.Yaml.Reader

/-!
# Reading definitions

A definition is written in one of two formats. In JSON it is an object, or an array of its values in order;
in YAML it is a map. Both must know all keys, must not give a key twice, and must give the id. Whatever is
wrong with the outer form is one fault; the fields of the definition are then read from data, in the same
way for both formats.
-/

namespace InvoiceXml.ProfileDefinition

/-- The slots of a definition. -/
def names : Record.Names :=
  [["id"], ["extends"], ["context_parameter", "contextParameter"], ["xsd_path", "xsdPath"],
    ["conformance_level", "conformanceLevel"], ["mask"], ["fields"]]

/-- A definition whose fields are not yet read. -/
structure Outline where
  id : String
  parent : Option String
  contextParameter : Option String
  xsdPath : Option String
  conformanceLevel : Option String
  mask : Option (List (String × String))
  fields : List (String × Data)

namespace Outline

/-- Reads the slots of a definition; the id must be there, and a definition may have no fields. -/
def ofSlots? {α : Type} (text? : α → Option String)
    (optional? : {β : Type} → (α → Option β) → Option α → Option (Option β))
    (texts? : α → Option (List (String × String))) (fields? : α → Option (List (String × Data))) :
    List (Option α) → Option Outline
  | [some id, parent, contextParameter, xsdPath, conformanceLevel, mask, fields] => do
    some {
      id := ← text? id
      parent := ← optional? text? parent
      contextParameter := ← optional? text? contextParameter
      xsdPath := ← optional? text? xsdPath
      conformanceLevel := ← optional? text? conformanceLevel
      mask := ← optional? texts? mask
      fields := ← match fields with
        | some fields => fields? fields
        | none => some [] }
  | _ => none

/-- The members of an object whose values are texts. -/
def dataTexts? : Data → Option (List (String × String))
  | .obj members => members.mapM fun member => (Record.text? member.2).map fun text => (member.1, text)
  | _ => none

/-- The members of an object without repeated keys. -/
def dataMembers? : Data → Option (List (String × Data))
  | .obj members => FieldDefinition.members? (Data.normal (.obj members))
  | _ => none

/-- Reads the outline of a JSON text. -/
def ofJson? (text : String) : Option Outline := do
  let slots ← Record.slots? true names (← Data.readRaw? text)
  ofSlots? Record.text? Record.optional? dataTexts? dataMembers? slots

/-- The entries of a map whose values are texts. -/
def nodeTexts? (node : Yaml.Node) : Option (List (String × String)) := do
  (← node.entries?).mapM fun entry => (entry.2.text?).map fun text => (entry.1, text)

/-- The entries of a map as data without repeated keys. -/
def nodeMembers? (node : Yaml.Node) : Option (List (String × Data)) := do
  some (Data.membersOf (← Yaml.Node.dataMembers? (← node.entries?)))

/-- Reads the outline of a YAML text. -/
def ofYaml? (text : String) : Option Outline := do
  let slots ← Record.slotsOfMembers? true names (← (← Yaml.read? text).entries?)
  ofSlots? Yaml.Node.text? Yaml.Node.optional? nodeTexts? nodeMembers? slots

/-- The definition of an outline. -/
def definition (validators : Validators) (outline : Outline) : Except SchemaError ProfileDefinition := do
  let schema ← FieldDefinition.readFields validators [] outline.fields
  .ok {
    schema
    id := outline.id
    parent := outline.parent
    contextParameter := outline.contextParameter
    xsdPath := outline.xsdPath
    conformanceLevel := outline.conformanceLevel
    mask := outline.mask }

end Outline

/-- The formats of definitions. -/
inductive Format where
  | json
  | yaml
deriving DecidableEq, Repr

/-- Reads a definition. -/
def read (validators : Validators) (format : Format) (text : String) : Except SchemaError ProfileDefinition :=
  match format with
  | .json =>
    match Outline.ofJson? text with
    | some outline => outline.definition validators
    | none => .error (.format .notJson)
  | .yaml =>
    match Outline.ofYaml? text with
    | some outline => outline.definition validators
    | none => .error (.format .notYaml)

end InvoiceXml.ProfileDefinition
