import InvoiceXml.Standard.Agreement
import InvoiceXml.Standard.Delivery
import InvoiceXml.Standard.Header
import InvoiceXml.Standard.Line
import InvoiceXml.Standard.Settlement

/-!
# The standard levels

Five conformance levels, each of which declares only what it adds to the one before it: the minimum, the
basic level without lines, the basic level, the European core invoice, and its extension. A level is named
by its id or an alias, in any case and with or without blanks, hyphens and underscores.

The profile of a level extends the profile of the level before it, and indexes its business terms.
-/

namespace InvoiceXml

/-- A conformance level. -/
inductive Level where
  | minimum
  | basicWithoutLines
  | basic
  | core
  | extended
deriving DecidableEq, Repr

namespace Level

open Standard

/-- All levels, the smallest first. -/
def all : List Level := [minimum, basicWithoutLines, basic, core, extended]

/-- The id of a level. -/
def id : Level → String
  | minimum => "minimum"
  | basicWithoutLines => "basic-wl"
  | basic => "basic"
  | core => "en16931"
  | extended => "extended"

/-- The name of a level in the metadata of documents. -/
def conformanceLevel : Level → String
  | minimum => "MINIMUM"
  | basicWithoutLines => "BASIC WL"
  | basic => "BASIC"
  | core => "EN 16931"
  | extended => "EXTENDED"

/-- The guideline that documents of a level name. -/
def contextParameter : Level → String
  | minimum => "urn:factur-x.eu:1p0:minimum"
  | basicWithoutLines => "urn:factur-x.eu:1p0:basicwl"
  | basic => "urn:cen.eu:en16931:2017#compliant#urn:factur-x.eu:1p0:basic"
  | core => "urn:cen.eu:en16931:2017"
  | extended => "urn:cen.eu:en16931:2017#conformant#urn:factur-x.eu:1p0:extended"

/-- The name of the schema file of a level. -/
def xsdFile : Level → String
  | minimum => "Factur-X_1.07.2_MINIMUM.xsd"
  | basicWithoutLines => "Factur-X_1.07.2_BASICWL.xsd"
  | basic => "Factur-X_1.07.2_BASIC.xsd"
  | core => "Factur-X_1.07.2_EN16931.xsd"
  | extended => "Factur-X_1.07.2_EXTENDED.xsd"

/-- The levels before one, the smallest first. -/
def before (level : Level) : List Level := all.takeWhile (· ≠ level)

/-- What a level declares. -/
def ownSchema : Level → Schema
  | minimum => [
    ("document", Field.ofObject Header.minimum),
    ("agreement", Field.ofObject Agreement.minimum),
    ("delivery", (Field.ofObject []).placedAt delivery),
    ("settlement", Field.ofObject Settlement.minimum)]
  | basicWithoutLines => [
    ("document", Field.ofObject Header.basicWithoutLines),
    ("agreement", Field.ofObject Agreement.basicWithoutLines),
    ("delivery", Field.ofObject Delivery.basicWithoutLines),
    ("settlement", Field.ofObject Settlement.basicWithoutLines)]
  | basic => [
    ("lines", ((Field.ofArray Line.basic).inGroup "lines").withKey "BG-25"),
    ("agreement", objectAnchor)]
  | core => [
    ("lines", Field.ofArray Line.core),
    ("agreement", Field.ofObject Agreement.core),
    ("delivery", Field.ofObject Delivery.core),
    ("settlement", Field.ofObject Settlement.core)]
  | extended => [
    ("document", Field.ofObject Header.extended),
    ("lines", Field.ofArray Line.extended),
    ("delivery", Field.ofObject Delivery.extended),
    ("settlement", Field.ofObject Settlement.extended)]

/-- A profile with all that a level says about itself, its business terms included. -/
def complete (level : Level) (profile : Profile) : Profile :=
  let profile := [
    Profile.Setting.contextParameter level.contextParameter, .conformanceLevel level.conformanceLevel,
    .xsdPath ("xsd/" ++ level.xsdFile), .documentFileName "factur-x.xml", .documentType "INVOICE",
    .version "1.0", .root documentRoot].foldl Profile.set profile
  profile.set (.mask profile.terms)

/-- The profile of a level over a parent, if it has one. -/
def profileOver (level : Level) (parent : Option Profile) : Profile :=
  let own := Profile.ofSchema level.id level.ownSchema
  level.complete (match parent with
    | some parent => own.set (.extending parent)
    | none => own)

/-- The profile of a level: it extends that of the level before it. -/
def profile (level : Level) : Profile :=
  level.profileOver (level.before.foldl (fun parent lower => some (lower.profileOver parent)) none)

/-- The lineage of a level's profile is the ids of the levels up to it. -/
theorem lineage_profile (level : Level) : level.profile.lineage = (level.before ++ [level]).map id := by
  cases level <;> rfl

/-- A name without case, blanks, hyphens and underscores. -/
def normalized (name : String) : String :=
  String.ofList ((name.toList.filter fun c => c ≠ ' ' ∧ c ≠ '-' ∧ c ≠ '_').map Char.toLower)

/-- The level of a normalized name. No letter outside of ASCII has one of these names' letters as its lower
case, so it is enough to lower ASCII letters. -/
def ofNormalized? : String → Option Level
  | "minimum" => some minimum
  | "basicwl" => some basicWithoutLines
  | "basic" => some basic
  | "en16931" => some core
  | "comfort" => some core
  | "extended" => some extended
  | _ => none

/-- A level that is named wrongly. -/
structure Unknown where
  name : String
deriving DecidableEq, Repr

/-- The words for a level that is not known. -/
def Unknown.message (unknown : Unknown) : String :=
  "unknown profile '" ++ unknown.name ++ "' (expected one of " ++ Text.joined ", " (all.map id) ++ ")"

/-- The level of a name. -/
def ofName (name : String) : Except Unknown Level :=
  match ofNormalized? (normalized name) with
  | some level => .ok level
  | none => .error ⟨name⟩

end Level

end InvoiceXml
