import InvoiceXml.Data.Reader
import InvoiceXml.Data.Record
import InvoiceXml.Document.Basic

/-!
# Documents as data

A document is kept as data: an element as an object of its name, attributes, text and children, the metadata
as an object of five values that may be null. Reading also takes records written as arrays, passes over
unknown keys, and takes a missing text or metadata value for null; a name, attributes or children must be
there, and no key may be given twice. The text of a document is the compact text of its data.
-/

namespace InvoiceXml

namespace Element

/-- An attribute as data. -/
def attrData (attr : String × String) : Data :=
  .obj [("name", .str attr.1), ("value", .str attr.2)]

/-- A text as data; no text is null. -/
def textData : Option String → Data
  | none => .null
  | some text => .str text

mutual

/-- An element as data. -/
def toData : Element → Data
  | { name, attrs, text, children } =>
    .obj [("name", .str name), ("attributes", .arr (attrs.map attrData)), ("text", textData text),
      ("children", .arr (toDataAll children))]

def toDataAll : List Element → List Data
  | [] => []
  | element :: rest => toData element :: toDataAll rest

end

/-- The slots of an attribute. -/
def attrNames : Record.Names := [["name"], ["value"]]

/-- The slots of an element. -/
def names : Record.Names := [["name"], ["attributes"], ["text"], ["children"]]

/-- Reads an attribute. -/
def attrOfData? (data : Data) : Option (String × String) := do
  match ← Record.slots? false attrNames data with
  | [some name, some value] => some (← Record.text? name, ← Record.text? value)
  | _ => none

/-- Whether the text may be missing: it may in an object, not in an array. -/
def mayOmitText : Data → Bool
  | .obj _ => true
  | _ => false

/-- Reads an element whose tree is at most so deep. -/
def ofDataWithin? : (depth : Nat) → Data → Option Element
  | 0, _ => none
  | depth + 1, data => do
    match ← Record.slots? false names data with
    | [some name, some attrs, text, some children] =>
      if text.isNone ∧ !mayOmitText data then none
      else
        let name ← Record.text? name
        let attrs ← Record.items? attrOfData? attrs
        let text ← Record.optional? Record.text? text
        let children ← Record.items? (ofDataWithin? depth) children
        some { name, attrs, text, children }
    | _ => none

end Element

namespace Data

mutual

/-- How deep containers nest. -/
def depth : Data → Nat
  | arr items => depthItems items + 1
  | obj members => depthMembers members + 1
  | _ => 0

def depthItems : List Data → Nat
  | [] => 0
  | item :: rest => max (depth item) (depthItems rest)

def depthMembers : List (String × Data) → Nat
  | [] => 0
  | (_, value) :: rest => max (depth value) (depthMembers rest)

end

end Data

namespace Element

/-- Reads an element. -/
def ofData? (data : Data) : Option Element := ofDataWithin? data.depth data

end Element

namespace Metadata

/-- The slots of the metadata. -/
def names : Record.Names :=
  [["profile_id"], ["conformance_level"], ["document_type"], ["version"], ["created_at"]]

/-- The metadata as data. -/
def toData (metadata : Metadata) : Data :=
  .obj [("profile_id", Element.textData metadata.profileId),
    ("conformance_level", Element.textData metadata.conformanceLevel),
    ("document_type", Element.textData metadata.documentType),
    ("version", Element.textData metadata.version),
    ("created_at", Element.textData (metadata.createdAt.map Instant.render))]

/-- A point in time. -/
def instant? (data : Data) : Option Instant := (Record.text? data).bind Instant.read?

/-- Reads the metadata; an array must have all five values. -/
def ofData? (data : Data) : Option Metadata := do
  let slots ← Record.slots? false names data
  if slots.any Option.isNone ∧ !Element.mayOmitText data then none
  else
    match slots with
    | [profileId, conformanceLevel, documentType, version, createdAt] =>
      some {
        profileId := ← Record.optional? Record.text? profileId
        conformanceLevel := ← Record.optional? Record.text? conformanceLevel
        documentType := ← Record.optional? Record.text? documentType
        version := ← Record.optional? Record.text? version
        createdAt := ← Record.optional? instant? createdAt }
    | _ => none

end Metadata

namespace Document

/-- The slots of a document. -/
def names : Record.Names := [["root"], ["metadata"]]

/-- A document as data. -/
def toData (document : Document) : Data :=
  .obj [("root", document.root.toData), ("metadata", document.metadata.toData)]

/-- Reads a document. -/
def ofData? (data : Data) : Option Document := do
  match ← Record.slots? false names data with
  | [some root, some metadata] => some ⟨← Element.ofData? root, ← Metadata.ofData? metadata⟩
  | _ => none

/-- The text that a document is kept as. -/
def text (document : Document) : String := document.toData.compact

/-- Reads the text of a document. -/
def read? (text : String) : Option Document := (Data.readRaw? text).bind ofData?

end Document

end InvoiceXml
