import InvoiceXml.Calendar.Instant
import InvoiceXml.Element.Basic

/-!
# Documents

A document is a tree of elements with what is known about it: the profile it was made by, its conformance
level, type and version, and when it was made.
-/

namespace InvoiceXml

/-- What is known about a document. -/
structure Metadata where
  profileId : Option String := none
  conformanceLevel : Option String := none
  documentType : Option String := none
  version : Option String := none
  createdAt : Option Instant := none
deriving DecidableEq, Repr

/-- A tree of elements and what is known about it. -/
structure Document where
  root : Element
  metadata : Metadata := {}

namespace Document

/-- How many elements a document has. -/
def size (document : Document) : Nat := document.root.size

end Document

end InvoiceXml
