import InvoiceXml.FieldPath
import InvoiceXml.Schema.Group

/-!
# Assembly plans

Before a document is built, data and schema are turned into a flat list of writes: which element, with the
number of each instance on the way, gets which text or attribute. The fields of the schema are gone through
in order of declaration, and the items of an array in order.

An array with a group binds its marker to the number of each item, counted from where the nearest group of
its sibling chain left off that was met before in the same scope (`Frame`); without a group the items are
gone through in the scope around them. Each item of a group is a scope of its own.

Planning may fail. The writes planned before the failure are kept with it, because one of them may fail
first when the document is built. `Planned` is the monad of such runs, and `writes_bind` says that nothing
planned is lost.
-/

namespace InvoiceXml

/-- Why a document cannot be assembled. -/
inductive AssemblyError where
  | unboundGroup (group xpath : String)
  | nonScalar (path : String)
  | multipleRoots (root xpath : String)
  | noRoot
  | schema (error : SchemaError)

namespace AssemblyError

/-- The words for an error. -/
def message : AssemblyError → String
  | unboundGroup group xpath => "Group marker '[" ++ group ++ "]' in '" ++ xpath ++
    "' is not bound to an instance"
  | nonScalar path => "Field '" ++ path ++ "' resolved to a non-scalar value"
  | multipleRoots root xpath => "Path '" ++ xpath ++ "' does not start at document root '" ++ root ++ "'"
  | noRoot => "No root element: nothing was placed and no root name was configured"
  | schema error => error.message

end AssemblyError

/-- What happens to an element: it is only made to exist, or gets a text or an attribute. -/
inductive Content where
  | touch
  | text (text : String)
  | attr (name value : String)
deriving DecidableEq, Repr

/-- One write: the root it starts at, the way from there by names and numbers, and what happens at its end.
The path is kept as it was written, for diagnosis. -/
structure Write where
  path : Path
  rootName : String
  rootNumber : Nat
  way : List (String × Nat)
  content : Content
deriving DecidableEq, Repr

/-- A run of planning: the writes planned so far, and a value or the failure that ended it. -/
structure Planned (α : Type) where
  writes : List Write
  result : Except AssemblyError α

namespace Planned

/-- A run that plans nothing and gives a value. -/
def value {α : Type} (a : α) : Planned α := ⟨[], .ok a⟩

/-- A run that plans nothing and fails. -/
def fail {α : Type} (error : AssemblyError) : Planned α := ⟨[], .error error⟩

/-- A run that plans one write. -/
def write (write : Write) : Planned Unit := ⟨[write], .ok ()⟩

/-- One run after another; a failure ends them. -/
def bind {α β : Type} (run : Planned α) (next : α → Planned β) : Planned β :=
  match run.result with
  | .ok a => ⟨run.writes ++ (next a).writes, (next a).result⟩
  | .error error => ⟨run.writes, .error error⟩

instance : Monad Planned where
  pure := value
  bind := bind

/-- A run that plans nothing and gives what was computed, or fails as that did. -/
def ofSchema {α : Type} : Except SchemaError α → Planned α
  | .ok a => value a
  | .error error => fail (.schema error)

theorem writes_bind {α β : Type} {run : Planned α} {a : α} (h : run.result = .ok a) (next : α → Planned β) :
    (run >>= next).writes = run.writes ++ (next a).writes := by
  show (bind run next).writes = _
  simp [bind, h]

end Planned

/-- The numbers that group markers stand for; the innermost binding of a marker is first. -/
abbrev Bindings := List (String × Nat)

/-- Where the items of each group met so far in a scope end. -/
abbrev Frame := List (String × Nat)

namespace Frame

/-- Notes where the items of a group end. -/
def set (group : String) (finish : Nat) (frame : Frame) : Frame := (group, finish) :: frame

end Frame

namespace Path

/-- The name and number of a step. -/
def resolveStep (bindings : Bindings) (xpath : String) (step : Step) : Except AssemblyError (String × Nat) :=
  match step.selector with
  | none => .ok (step.name, 0)
  | some (.index number) => .ok (step.name, number)
  | some (.group group) =>
    match bindings.lookup group with
    | some number => .ok (step.name, number)
    | none => .error (.unboundGroup group xpath)

/-- The names and numbers of the steps of an absolute path. -/
def resolve (bindings : Bindings) (path : Path) : Except AssemblyError (List (String × Nat)) :=
  if !path.absolute then .error (.schema (.invalidPath path.render .notAbsolute))
  else path.steps.mapM (resolveStep bindings path.render)

end Path

namespace Assembly

/-- A write of content at a path. -/
def writeAt (bindings : Bindings) (path : Path) (content : Content) : Planned Unit :=
  match path.resolve bindings with
  | .error error => .fail error
  | .ok [] => .fail (.schema (.invalidPath path.render .emptyPath))
  | .ok ((rootName, rootNumber) :: way) => .write { path, rootName, rootNumber, way, content }

/-- A text at a path: the value of the attribute it designates, or the text of the element. -/
def place (bindings : Bindings) (path : Path) (text : String) : Planned Unit :=
  writeAt bindings path <| match path.attr with
    | some name => .attr name text
    | none => .text text

/-- The value that a field gives: the changed value, or the value, or the fallback; null is none. -/
def resolveValue (transform : Option Transform) (fallback : Option Data) (value : Option Data) :
    Option Data :=
  let changed := match value, transform with
    | some value, some transform => transform.apply value
    | _, _ => none
  ((changed.or value).or fallback).filter fun data => !data.isNull

/-- The text of a scalar. -/
def scalarText : Data → Option String
  | .str s => some s
  | .num n => some n.dataText
  | .bool b => some (ExtraValue.flagText b)
  | .null | .arr _ | .obj _ => none

/-- The texts of the extras of a field, beside its own path. -/
def planExtras (bindings : Bindings) (path : FieldPath) (owner : Option Path) (value : Data) :
    List (String × ExtraValue) → Planned Unit
  | [] => pure ()
  | (xpath, extra) :: rest => do
    match extra.render value with
    | none => pure ()
    | some text =>
      let target ← Planned.ofSchema (GroupIndex.resolveExtra path.render xpath owner)
      place bindings target text
    planExtras bindings path owner value rest

/-- The text of a scalar field and of its extras. -/
def planScalar (bindings : Bindings) (path : FieldPath) (xpath : Option String)
    (extras : List (String × ExtraValue)) (resolved : Option Data) : Planned Unit :=
  match resolved with
  | none => pure ()
  | some data =>
    match scalarText data with
    | none => .fail (.nonScalar path.render)
    | some text =>
      match xpath with
      | none => planExtras bindings path none data extras
      | some xpath => do
        let owner ← Planned.ofSchema (SchemaError.readPath xpath)
        place bindings owner text
        planExtras bindings path (some owner) data extras

/-- The element of an object field that has one, and the extras beside it. -/
def planObject (bindings : Bindings) (path : FieldPath) (xpath : Option String)
    (extras : List (String × ExtraValue)) (data : Data) : Planned Unit :=
  match xpath with
  | none => pure ()
  | some xpath => do
    let owner ← Planned.ofSchema (SchemaError.readPath xpath)
    writeAt bindings owner .touch
    planExtras bindings path (some owner) data extras

/-- The items that a value stands for: those of an array, or the value alone. -/
def itemsOf : Option Data → List Data
  | none => []
  | some (.arr items) => items
  | some data => [data]

/-- An item as an object; null is an empty one. -/
def itemData (item : Data) : Data := if item.isNull then .obj [] else item

/-- The items of an array without a group, all in the scope around them. -/
def planShared (plan : FieldPath → Data → Frame → Planned Frame) (path : FieldPath) :
    (number : Nat) → List Data → Frame → Planned Frame
  | _, [], frame => pure frame
  | number, item :: rest, frame => do
    let frame ← plan (path.item number) (itemData item) frame
    planShared plan path (number + 1) rest frame

/-- The items of an array with a group, each in a scope of its own and with its instance number. -/
def planBound (plan : FieldPath → Data → (bound : Nat) → Planned Frame) (path : FieldPath) (base : Nat) :
    (number : Nat) → List Data → Planned Unit
  | _, [] => pure ()
  | number, item :: rest => do
    let _ ← plan (path.item number) (itemData item) (base + number)
    planBound plan path base (number + 1) rest

/-- The instance number of the first item of a group: where the nearest group of its chain left off. -/
def base (groups : GroupIndex) (group : String) (frame : Frame) : Nat :=
  ((groups.siblingChain group).findSome? fun sibling => frame.lookup sibling).getD 0

mutual

/-- The writes of a field; the frame is that of the scope around it. -/
def planField (groups : GroupIndex) (bindings : Bindings) (path : FieldPath) (value : Option Data) :
    Field → Frame → Planned Frame
  | { type, shape, group, xpath, extras, transform, fallback, .. }, frame =>
    match type, shape with
    | .scalar _, _ => do
      planScalar bindings path xpath (extras.getD []) (resolveValue transform fallback value)
      pure frame
    | .choice _, _ => do
      planScalar bindings path xpath (extras.getD []) (resolveValue transform fallback value)
      pure frame
    | .object, none => pure frame
    | .objectArray, none => pure frame
    | .object, some fields => do
      let data := value.getD (.obj [])
      planObject bindings path xpath (extras.getD []) data
      planFields groups bindings path data fields frame
    | .objectArray, some fields =>
      match group with
      | none =>
        planShared (fun path item frame => planFields groups bindings path item fields frame) path 0
          (itemsOf value) frame
      | some group => do
        let first := base groups group frame
        planBound (fun path item bound => planFields groups ((group, bound) :: bindings) path item fields [])
          path first 0 (itemsOf value)
        pure (frame.set group (first + (itemsOf value).length))

/-- The writes of the fields of an object in order. -/
def planFields (groups : GroupIndex) (bindings : Bindings) (path : FieldPath) (data : Data) :
    List (String × Field) → Frame → Planned Frame
  | [], frame => pure frame
  | (name, field) :: rest, frame => do
    let frame ← planField groups bindings (path.field name) (data.present? name) field frame
    planFields groups bindings path data rest frame

end

/-- The writes of texts that stand before all fields. -/
def planLeading : List (String × String) → Planned Unit
  | [] => pure ()
  | (xpath, text) :: rest => do
    let path ← Planned.ofSchema (SchemaError.readPath xpath)
    place [] path text
    planLeading rest

/-- All writes of a document: the leading texts, then the fields. -/
def plan (composed : ComposedSchema) (leading : List (String × String)) (data : Data) : Planned Unit := do
  planLeading leading
  let _ ← planFields composed.groups [] [] data composed.schema []
  pure ()

end Assembly

end InvoiceXml
