import InvoiceXml.Assembly.Placement
import InvoiceXml.Element.Markup
import InvoiceXml.Profile
import InvoiceXml.Validation

/-!
# Rendering

A renderer turns data into the markup of a document of one profile, in three stages: the data is validated,
the document is assembled, and its markup is written. A profile whose schema does not compose has no
renderer. The error of a rendering is the error of the first stage that fails; writing markup cannot fail.
-/

namespace InvoiceXml

/-- Why a document cannot be checked against a schema file, or does not pass. -/
inductive CheckFault where
  | unreadable (message : String)
  | invalid (schemaFile message : String)
  | unavailable (tool message : String)
deriving DecidableEq, Repr

/-- Why a document cannot be rendered or does not pass its check. -/
inductive RenderError where
  | schema (error : SchemaError)
  | validation (error : ValidationError)
  | assembly (error : AssemblyError)
  | check (fault : CheckFault)

namespace CheckFault

/-- The words for a fault. -/
def message : CheckFault → String
  | unreadable message => "cannot read document: " ++ message
  | invalid schemaFile message => "document does not match '" ++ schemaFile ++ "': " ++ message
  | unavailable tool message => "XSD validator '" ++ tool ++ "' could not run: " ++ message

end CheckFault

namespace RenderError

/-- The code of an error. -/
def code : RenderError → String
  | schema _ => "SCHEMA"
  | validation _ => "VALIDATION"
  | assembly _ => "ASSEMBLY"
  | check _ => "INVALID_XML"

/-- The words for an error. -/
def message : RenderError → String
  | schema error => error.message
  | validation error => error.message
  | assembly error => error.message
  | check fault => fault.message

/-- An error as it is shown: its code and its words. -/
def display (error : RenderError) : String := "[" ++ error.code ++ "] " ++ error.message

end RenderError

/-- A composed profile with the form of its markup. -/
structure Renderer where
  profile : Profile
  composed : ComposedSchema
  markup : MarkupOptions := {}

namespace Renderer

/-- The renderer of a profile. -/
def create (profile : Profile) (markup : MarkupOptions) : Except RenderError Renderer :=
  match profile.compose with
  | .ok composed => .ok { profile, composed, markup }
  | .error error => .error (.schema error)

/-- The text that stands before all fields: the context parameter, if the profile has one and says where it
stands. -/
def leading (profile : Profile) : List (String × String) :=
  if profile.info.contextParameter = "" then []
  else (profile.info.root.contextPath.map fun path => (path, profile.info.contextParameter)).toList

/-- A text that is set. -/
def nonEmpty? (text : String) : Option String := if text = "" then none else some text

/-- What is known about the documents of a profile. -/
def metadata (profile : Profile) : Metadata := {
  profileId := some profile.id
  conformanceLevel := nonEmpty? profile.info.conformanceLevel
  documentType := nonEmpty? profile.info.documentType
  version := nonEmpty? profile.info.version }

/-- How the documents of a profile are assembled; the time at which they are made may be noted. -/
def assemblyOptions (profile : Profile) (time : Option Instant) : AssemblyOptions := {
  namespaces := profile.info.root.namespaces
  leading := leading profile
  metadata := { metadata profile with createdAt := time } }

/-- The normal form of valid data. -/
def validate (renderer : Renderer) (data : Data) : Except RenderError Data :=
  match renderer.composed.schema.validate data with
  | .ok data => .ok data
  | .error error => .error (.validation error)

/-- The document of data, which is not validated again. -/
def document (renderer : Renderer) (time : Option Instant) (data : Data) : Except RenderError Document :=
  match Assembly.assemble renderer.composed (assemblyOptions renderer.profile time) data with
  | .ok document => .ok document
  | .error error => .error (.assembly error)

/-- The markup of a document. -/
def write (renderer : Renderer) (document : Document) : String := Markup.source renderer.markup document.root

/-- The markup of the document of data. -/
def render (renderer : Renderer) (time : Option Instant) (data : Data) : Except RenderError String := do
  let data ← renderer.validate data
  let document ← renderer.document time data
  .ok (renderer.write document)

end Renderer

end InvoiceXml
