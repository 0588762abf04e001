import InvoiceXml.Assembly.Plan
import InvoiceXml.Document.Basic
import InvoiceXml.Element.Family

/-!
# Placement

The writes of a plan are carried out in order on a tree that grows: elements that a write passes through and
that are not there yet are created. The first write creates the root, unless its name is given beforehand;
every other write must start at the same root. Applying one list of writes after another is applying both
(`placeAll_append`).
-/

namespace InvoiceXml

/-- How a document is assembled: the name of the root if it is fixed, the namespaces declared on it, texts
that stand before all fields, and what is known about the document. -/
structure AssemblyOptions where
  root : Option String := none
  namespaces : List (String × String) := []
  leading : List (String × String) := []
  metadata : Metadata := {}

namespace Content

/-- What happens to the element. -/
def apply : Content → Element → Element
  | touch, element => element
  | text content, element => element.setText content
  | attr name value, element => element.setAttr name value

end Content

namespace Assembly

/-- The attribute that declares a namespace. -/
def namespaceName (scope : String) : String := if scope = "" then "xmlns" else "xmlns:" ++ scope

/-- A root element with its namespace declarations. -/
def newRoot (namespaces : List (String × String)) (name : String) : Element :=
  namespaces.foldl (fun root entry => root.setAttr (namespaceName entry.1) entry.2) { name }

/-- Carries out a write. -/
def placeWrite (namespaces : List (String × String)) (root : Option Element) (write : Write) :
    Except AssemblyError (Option Element) :=
  let root := root.getD (newRoot namespaces write.rootName)
  if root.name ≠ write.rootName ∨ write.rootNumber ≠ 0 then
    .error (.multipleRoots root.name write.path.render)
  else .ok (some (root.updateAlong write.content.apply write.way))

/-- Carries out writes in order. -/
def placeAll (namespaces : List (String × String)) :
    List Write → Option Element → Except AssemblyError (Option Element)
  | [], root => .ok root
  | write :: rest, root => do
    let root ← placeWrite namespaces root write
    placeAll namespaces rest root

/-- The document of data under a composed schema. -/
def assemble (composed : ComposedSchema) (options : AssemblyOptions) (data : Data) :
    Except AssemblyError Document := do
  let planned := plan composed options.leading data
  let root ← placeAll options.namespaces planned.writes (options.root.map (newRoot options.namespaces))
  planned.result
  match root with
  | some root => .ok { root, metadata := options.metadata }
  | none => .error .noRoot

theorem placeAll_append (namespaces : List (String × String)) (first second : List Write)
    (root : Option Element) :
    placeAll namespaces (first ++ second) root =
      (placeAll namespaces first root).bind (placeAll namespaces second) := by
  induction first generalizing root with
  | nil => rfl
  | cons write rest ih =>
    simp only [List.cons_append, placeAll]
    cases placeWrite namespaces root write with
    | error e => rfl
    | ok root => exact ih root

end Assembly

end InvoiceXml
