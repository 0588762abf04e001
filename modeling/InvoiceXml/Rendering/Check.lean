import InvoiceXml.FileName
import InvoiceXml.Rendering.Basic
import InvoiceXml.Host
import InvoiceXml.Text.Blank
import InvoiceXml.Text.Utf8

/-!
# Checking documents

A document is checked against the schema file of its profile, which is found in a directory unless its name
is absolute. The document is given as text, as bytes or as a file; the check itself is done by a checker,
most often one that runs a tool and takes its word.
-/

namespace InvoiceXml

/-- A document that is to be checked. -/
inductive Source where
  | text (text : String)
  | bytes (bytes : ByteArray)
  | file (name : String)

namespace Source

/-- The bytes of a source. -/
def read {m : Type → Type} [Monad m] (host : Host m) : Source → m (Except HostError ByteArray)
  | text content => return .ok content.toUTF8
  | bytes content => return .ok content
  | file name => host.read name

end Source

/-- A check of the bytes of a document against a schema file. -/
abbrev Checker (m : Type → Type) := (document : ByteArray) → (schemaFile : String) →
    m (Except CheckFault Unit)

namespace Checker

variable {m : Type → Type} [Monad m]

/-- The tool that checks documents where no other is named. -/
def defaultTool : String := "xmllint"

/-- What a tool is told. -/
def arguments (schemaFile : String) : List String := ["--noout", "--schema", schemaFile, "-"]

/-- The check that a tool does. -/
def ofTool (host : Host m) (tool : String) : Checker m := fun document schemaFile => do
  match ← host.run tool (arguments schemaFile) document with
  | .error error => return .error (.unavailable tool error.message)
  | .ok result =>
    if result.succeeded then return .ok ()
    else return .error (.invalid schemaFile (Text.trimmed (Text.decodeLossy result.complaint)))

end Checker

namespace Renderer

/-- The directory of schema files where no other is named. -/
def defaultDirectory : String := "."

/-- The schema file of a profile as seen from a directory. -/
def schemaFile (renderer : Renderer) (directory : String) : String :=
  FileName.resolve directory renderer.profile.info.xsdPath

/-- Checks a document against the schema file of the profile. -/
def check {m : Type → Type} [Monad m] (renderer : Renderer) (host : Host m) (checker : Checker m)
    (directory : String) (source : Source) : m (Except RenderError Unit) := do
  match ← source.read host with
  | .error error => return .error (.check (.unreadable error.message))
  | .ok document =>
    match ← checker document (renderer.schemaFile directory) with
    | .error fault => return .error (.check fault)
    | .ok () => return .ok ()

end Renderer

end InvoiceXml
