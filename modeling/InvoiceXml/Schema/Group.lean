import InvoiceXml.Schema.Basic
import InvoiceXml.Schema.Error

/-!
# Groups

An array of objects that declares a group binds a marker: in the paths of the fields below it, the marker
stands for the number of the item. The groups of a schema are indexed in the order of declaration, each with
the groups around it (its scope), the group it follows (its sibling), and the fields whose paths carry its
marker.

Building the index checks that the schema composes: paths are well-formed, the path of a field is absolute,
a relative extra has a path to continue, each marker is bound by an array around the field, no group is
declared twice, and a sibling is a group declared before in the same scope.

The sibling chain of a group lists the group it follows, the one that follows, and so on. Each is declared
before the last, so the chain is found by going once through the groups, latest first.
-/

namespace InvoiceXml

/-- A repetition of a schema. -/
structure Group where
  name : String
  fieldPath : String
  scope : List String
  sibling : Option String
  members : List String
deriving DecidableEq, Repr

/-- The groups of a schema in the order of declaration. -/
structure GroupIndex where
  groups : List Group := []
deriving DecidableEq, Repr

namespace GroupIndex

/-- The group with a name. -/
def find? (name : String) (index : GroupIndex) : Option Group :=
  index.groups.find? fun group => group.name == name

/-- The groups that stand before one, nearest first; the list has the latest group first. -/
def chainAmong (name : String) : (latestFirst : List Group) → List String
  | [] => []
  | group :: earlier =>
    if group.name = name then
      match group.sibling with
      | some sibling => sibling :: chainAmong sibling earlier
      | none => []
    else chainAmong name earlier

/-- The groups whose items stand before those of a group, nearest first. -/
def siblingChain (name : String) (index : GroupIndex) : List String :=
  chainAmong name index.groups.reverse

/-- Adds a member to a list that does not have it yet. -/
def addOnce (member : String) (members : List String) : List String :=
  if members.contains member then members else members ++ [member]

/-- Notes that the path of a field carries the marker of a group. -/
def addMember (marker fieldPath : String) (index : GroupIndex) : GroupIndex :=
  ⟨index.groups.map fun group =>
    if group.name = marker then { group with members := addOnce fieldPath group.members } else group⟩

/-- Notes the markers of a path, all of which must be in scope. -/
def addMarkers (xpath : Path) (fieldPath : String) (scope : List String) (index : GroupIndex) :
    Except SchemaError GroupIndex :=
  match xpath.markers.find? fun marker => !scope.contains marker with
  | some marker => .error (.composition fieldPath (.unboundMarker marker xpath.render))
  | none => .ok (xpath.markers.foldl (fun index marker => index.addMember marker fieldPath) index)

/-- Registers a group. -/
def register (group fieldPath : String) (sibling : Option String) (scope : List String)
    (index : GroupIndex) : Except SchemaError GroupIndex := do
  match index.find? group with
  | some other => .error (.composition fieldPath (.duplicateGroup group other.fieldPath))
  | none => pure ()
  match sibling with
  | none => pure ()
  | some sibling =>
    match index.find? sibling with
    | none => .error (.composition fieldPath (.unknownSibling sibling))
    | some target =>
      if target.scope = scope then pure () else .error (.composition fieldPath (.siblingScope sibling))
  .ok ⟨index.groups ++ [{ name := group, fieldPath, scope, sibling, members := [] }]⟩

/-- The absolute path of an extra, continued from the path of its field where it is relative. -/
def resolveExtra (fieldPath extra : String) (owner : Option Path) : Except SchemaError Path := do
  let path ← SchemaError.readPath extra
  if path.absolute then .ok path
  else
    match owner with
    | some owner => .ok (owner.join path)
    | none => .error (.composition fieldPath (.relativeWithoutOwner extra))

/-- Notes the markers of the extras of a field. -/
def addExtras (fieldPath : String) (owner : Option Path) (scope : List String) :
    List (String × ExtraValue) → GroupIndex → Except SchemaError GroupIndex
  | [], index => .ok index
  | (extra, _) :: rest, index => do
    let path ← resolveExtra fieldPath extra owner
    let index ← index.addMarkers path fieldPath scope
    addExtras fieldPath owner scope rest index

/-- The path of a field, which must be absolute. -/
def ownerPath (fieldPath : String) : Option String → Except SchemaError (Option Path)
  | none => .ok none
  | some xpath => do
    let path ← SchemaError.readPath xpath
    if path.absolute then .ok (some path) else .error (.composition fieldPath (.notAbsolute xpath))

/-- Notes the markers of the paths of a field. -/
def addPaths (fieldPath : String) (field : Field) (scope : List String) (index : GroupIndex) :
    Except SchemaError GroupIndex := do
  let owner ← ownerPath fieldPath field.xpath
  let index ← match owner with
    | some path => index.addMarkers path fieldPath scope
    | none => .ok index
  index.addExtras fieldPath owner scope field.extraEntries

end GroupIndex

namespace Field

/-- The group that a field binds for the fields below it. -/
def boundGroup? (field : Field) : Option String :=
  match field.type, field.group with
  | .objectArray, some group => some group
  | _, _ => none

end Field

namespace GroupIndex

mutual

/-- Indexes a field at a path and the fields of its shape. -/
def visitField (fieldPath : String) (scope : List String) : Field → GroupIndex → Except SchemaError GroupIndex
  | { type, required, shape, key, group, sibling, xpath, extras, transform, fallback }, index => do
    let field : Field := { type, required, key, group, sibling, xpath, extras, transform, fallback }
    let index ← index.addPaths fieldPath field scope
    if sibling.isSome ∧ field.boundGroup?.isNone then .error (.composition fieldPath .misplacedSibling)
    else
      match shape with
      | none => .ok index
      | some fields =>
        match field.boundGroup? with
        | some group => do
          let index ← index.register group fieldPath sibling scope
          visitFields fieldPath (scope ++ [group]) fields index
        | none => visitFields fieldPath scope fields index

/-- Indexes the fields below a path in order. -/
def visitFields (parent : String) (scope : List String) :
    List (String × Field) → GroupIndex → Except SchemaError GroupIndex
  | [], index => .ok index
  | (name, field) :: rest, index => do
    let index ← visitField (Schema.below parent name) scope field index
    visitFields parent scope rest index

end

/-- Indexes the groups of a schema. -/
def build (schema : Schema) : Except SchemaError GroupIndex := visitFields "" [] schema {}

end GroupIndex

/-- A schema with the index of its groups. -/
structure ComposedSchema where
  schema : Schema
  groups : GroupIndex

namespace Schema

/-- Composes a schema. -/
def compose (schema : Schema) : Except SchemaError ComposedSchema := do
  let groups ← GroupIndex.build schema
  .ok ⟨schema, groups⟩

end Schema

end InvoiceXml
