import InvoiceXml.Dictionary
import InvoiceXml.Schema.Group
import InvoiceXml.Schema.Merge
import InvoiceXml.Schema.Terms

/-!
# Profiles

A profile is a schema with what identifies it: its id, the parameter that documents carry, the schema file
they are checked against, and more. A profile may extend another one: its layers are then those of the
parent with its own schema on top, and it starts with all that the parent has set.

`layers` lists the ids and schemas from the oldest ancestor to the profile itself. The merged schema, its
business terms and the index of its groups are computed from them.
-/

namespace InvoiceXml

/-- What stands on the root element of the documents of a profile. -/
structure DocumentRoot where
  namespaces : List (String × String) := []
  /-- Where the context parameter stands. -/
  contextPath : Option String := none
deriving DecidableEq, Repr

/-- What a profile says about itself. Texts that are not set are empty. -/
structure ProfileInfo where
  /-- Paths of fields by business term. -/
  mask : Dictionary String := {}
  contextParameter : String := ""
  xsdPath : String := ""
  conformanceLevel : String := ""
  documentFileName : String := ""
  documentType : String := ""
  version : String := ""
  root : DocumentRoot := {}

/-- A schema over those of its ancestors, and what is known about it. -/
structure Profile where
  id : String
  schema : Schema
  /-- The ids and schemas of the ancestors, oldest first. -/
  ancestors : List (String × Schema) := []
  info : ProfileInfo := {}

namespace Profile

/-- A profile without ancestors that says nothing about itself. -/
def ofSchema (id : String) (schema : Schema) : Profile := { id, schema }

/-- The ids and schemas of the ancestors and of the profile itself. -/
def layers (profile : Profile) : List (String × Schema) := profile.ancestors ++ [(profile.id, profile.schema)]

/-- The ids of the ancestors and of the profile itself. -/
def lineage (profile : Profile) : List String := profile.layers.map (·.1)

/-- The schema of all layers together. -/
def mergedSchema (profile : Profile) : Schema := Schema.ofLayers (profile.layers.map (·.2))

/-- The business terms of the merged schema. -/
def terms (profile : Profile) : List (String × String) := profile.mergedSchema.terms

/-- The merged schema with its groups. -/
def compose (profile : Profile) : Except SchemaError ComposedSchema := profile.mergedSchema.compose

/-- A setting made while a profile is built. -/
inductive Setting where
  | extending (parent : Profile)
  | mask (entries : List (String × String))
  | contextParameter (value : String)
  | xsdPath (path : String)
  | conformanceLevel (level : String)
  | documentFileName (name : String)
  | documentType (documentType : String)
  | version (version : String)
  | root (root : DocumentRoot)

/-- The profile with a setting. Extending replaces the ancestors and all that was said before by what the
parent has. -/
def set (profile : Profile) : Setting → Profile
  | .extending parent => { profile with ancestors := parent.layers, info := parent.info }
  | .mask entries => { profile with info := { profile.info with mask := Dictionary.ofList entries } }
  | .contextParameter value => { profile with info := { profile.info with contextParameter := value } }
  | .xsdPath path => { profile with info := { profile.info with xsdPath := path } }
  | .conformanceLevel level => { profile with info := { profile.info with conformanceLevel := level } }
  | .documentFileName name => { profile with info := { profile.info with documentFileName := name } }
  | .documentType documentType => { profile with info := { profile.info with documentType } }
  | .version version => { profile with info := { profile.info with version } }
  | .root root => { profile with info := { profile.info with root } }

/-- The profile of a schema with settings made in order. -/
def build (id : String) (schema : Schema) (settings : List Setting) : Profile :=
  settings.foldl set (ofSchema id schema)

/-- The layers of a profile that extends another are those of the parent and its own. -/
theorem layers_extending (profile parent : Profile) :
    (profile.set (.extending parent)).layers = parent.layers ++ [(profile.id, profile.schema)] := rfl

end Profile

end InvoiceXml
