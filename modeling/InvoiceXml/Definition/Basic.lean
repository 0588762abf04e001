import InvoiceXml.Profile

/-!
# Profile definitions

A definition describes a profile that is layered over a parent: the fields of its schema, and what it says
differently about itself. What a definition leaves out, the profile has from its parent.
-/

namespace InvoiceXml

/-- The definition of a profile. -/
structure ProfileDefinition where
  id : String
  /-- The name of the profile that the definition extends. -/
  parent : Option String := none
  schema : Schema
  contextParameter : Option String := none
  xsdPath : Option String := none
  conformanceLevel : Option String := none
  mask : Option (List (String × String)) := none

namespace ProfileDefinition

/-- The settings of a definition, in the order in which they are made. -/
def settings (definition : ProfileDefinition) (parent : Option Profile) : List Profile.Setting :=
  (parent.map .extending).toList ++ (definition.contextParameter.map .contextParameter).toList ++
    (definition.xsdPath.map .xsdPath).toList ++ (definition.conformanceLevel.map .conformanceLevel).toList ++
    (definition.mask.map .mask).toList

/-- The profile of a definition over a parent, if it has one. -/
def profile (definition : ProfileDefinition) (parent : Option Profile) : Profile :=
  Profile.build definition.id definition.schema (definition.settings parent)

end ProfileDefinition

end InvoiceXml
