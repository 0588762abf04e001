import InvoiceXml.Definition.Basic
import InvoiceXml.Standard.Level

/-!
# Definitions over standard levels

A definition that names the profile it extends is layered over that of the level of this name; any other is
layered over the profile it is given.
-/

namespace InvoiceXml.ProfileDefinition

/-- The profile of a definition over the level that it names, or else over a base. -/
def «over» (definition : ProfileDefinition) (base : Profile) : Except Level.Unknown Profile :=
  match definition.parent with
  | none => .ok (definition.profile (some base))
  | some name =>
    match Level.ofName name with
    | .ok level => .ok (definition.profile (some level.profile))
    | .error unknown => .error unknown

end InvoiceXml.ProfileDefinition
