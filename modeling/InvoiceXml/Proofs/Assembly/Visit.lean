import InvoiceXml.Assembly.Plan
import InvoiceXml.Proofs.Schema.Composition

/-!
# Visits

A walk over schema and data without its effects: the fields that are met, in order, each with the
value it has there and the numbers bound around it (`visitsOfFields`), and the frame that is left
behind (`frameAfterFields`). A visit has the writes that its field asks for (`Visit.writes?`), and
`writeList` joins those of the leading texts and of all visits into one flat list.

A write is missing (`none`) when its path cannot be read or a marker of it is not bound. So the list
exists only where every single write does.
-/

namespace InvoiceXml

/-- A field as it is met: where it stands in the data, the value there, and the numbers bound around it. -/
structure Visit where
  path : FieldPath
  field : Field
  value : Option Data
  bindings : Bindings

namespace Assembly

/-! ### The fields that are met -/

mutual

/-- Where the groups of a scope end after a field. -/
def frameAfterField (groups : GroupIndex) (value : Option Data) : Field → Frame → Frame
  | { type, shape, group, .. }, frame =>
    match type, shape with
    | .object, some fields => frameAfterFields groups (value.getD (.obj [])) fields frame
    | .objectArray, some fields =>
      match group with
      | none =>
        (itemsOf value).foldl (fun frame item => frameAfterFields groups (itemData item) fields frame) frame
      | some group => frame.set group (base groups group frame + (itemsOf value).length)
    | _, _ => frame

/-- Where the groups of a scope end after the fields of an object. -/
def frameAfterFields (groups : GroupIndex) (data : Data) : List (String × Field) → Frame → Frame
  | [], frame => frame
  | (name, field) :: rest, frame =>
    frameAfterFields groups data rest (frameAfterField groups (data.present? name) field frame)

end

/-- The visits below the items of an array without a group; `after` is the frame that an item leaves. -/
def sharedVisits (visits : FieldPath → Data → Frame → List Visit) (after : Data → Frame → Frame)
    (path : FieldPath) : (number : Nat) → List Data → Frame → List Visit
  | _, [], _ => []
  | number, item :: rest, frame =>
    visits (path.item number) (itemData item) frame ++
      sharedVisits visits after path (number + 1) rest (after (itemData item) frame)

/-- The visits below the items of an array with a group, whose first item has the number `first`. -/
def boundVisits (visits : FieldPath → Data → (bound : Nat) → List Visit) (path : FieldPath) (first : Nat) :
    (number : Nat) → List Data → List Visit
  | _, [] => []
  | number, item :: rest =>
    visits (path.item number) (itemData item) (first + number) ++
      boundVisits visits path first (number + 1) rest

mutual

/-- The visit of a field, and those of the fields in its shape. -/
def visitsOfField (groups : GroupIndex) (bindings : Bindings) (path : FieldPath) (value : Option Data) :
    Field → Frame → List Visit
  | { type, required, shape, key, group, sibling, xpath, extras, transform, fallback }, frame =>
    let field : Field := { type, required, shape, key, group, sibling, xpath, extras, transform, fallback }
    { path, field, value, bindings } ::
      match type, shape with
      | .object, some fields => visitsOfFields groups bindings path (value.getD (.obj [])) fields frame
      | .objectArray, some fields =>
        match group with
        | none =>
          sharedVisits (fun path item frame => visitsOfFields groups bindings path item fields frame)
            (fun item frame => frameAfterFields groups item fields frame) path 0 (itemsOf value) frame
        | some group =>
          boundVisits (fun path item bound =>
            visitsOfFields groups ((group, bound) :: bindings) path item fields [])
            path (base groups group frame) 0 (itemsOf value)
      | _, _ => []

/-- The visits of the fields of an object, in order of declaration. -/
def visitsOfFields (groups : GroupIndex) (bindings : Bindings) (path : FieldPath) (data : Data) :
    List (String × Field) → Frame → List Visit
  | [], _ => []
  | (name, field) :: rest, frame =>
    visitsOfField groups bindings (path.field name) (data.present? name) field frame ++
      visitsOfFields groups bindings path data rest (frameAfterField groups (data.present? name) field frame)

end

/-- All visits of a document. -/
def visits (composed : ComposedSchema) (data : Data) : List Visit :=
  visitsOfFields composed.groups [] [] data composed.schema []

/-! ### Where a visit comes from -/

/-- A visit below the items of an array is one of an item, at the frame that the items before leave. -/
theorem mem_sharedVisits {visits : FieldPath → Data → Frame → List Visit} {after : Data → Frame → Frame}
    {path : FieldPath} {number : Nat} {items : List Data} {frame : Frame} {visit : Visit} :
    visit ∈ sharedVisits visits after path number items frame ↔
      ∃ i item, items[i]? = some item ∧
        visit ∈ visits (path.item (number + i)) (itemData item)
          ((items.take i).foldl (fun frame item => after (itemData item) frame) frame) := by
  induction items generalizing number frame with
  | nil => simp [sharedVisits]
  | cons first rest ih =>
    rw [sharedVisits, List.mem_append, ih]
    constructor
    · intro h
      rcases h with h | ⟨i, item, hitem, h⟩
      · exact ⟨0, first, rfl, h⟩
      · refine ⟨i + 1, item, hitem, ?_⟩
        rwa [Nat.add_right_comm, Nat.add_assoc] at h
    · intro h
      obtain ⟨i, item, hitem, h⟩ := h
      cases i with
      | zero =>
        obtain rfl : first = item := by simpa using hitem
        exact .inl h
      | succ i =>
        refine .inr ⟨i, item, hitem, ?_⟩
        rwa [Nat.add_right_comm, Nat.add_assoc]

theorem mem_boundVisits {visits : FieldPath → Data → Nat → List Visit} {path : FieldPath} {first number : Nat}
    {items : List Data} {visit : Visit} :
    visit ∈ boundVisits visits path first number items ↔
      ∃ i item, items[i]? = some item ∧
        visit ∈ visits (path.item (number + i)) (itemData item) (first + (number + i)) := by
  induction items generalizing number with
  | nil => simp [boundVisits]
  | cons head rest ih =>
    rw [boundVisits, List.mem_append, ih]
    constructor
    · intro h
      rcases h with h | ⟨i, item, hitem, h⟩
      · exact ⟨0, head, rfl, h⟩
      · refine ⟨i + 1, item, hitem, ?_⟩
        rwa [Nat.add_right_comm, Nat.add_assoc] at h
    · intro h
      obtain ⟨i, item, hitem, h⟩ := h
      cases i with
      | zero =>
        obtain rfl : head = item := by simpa using hitem
        exact .inl h
      | succ i =>
        refine .inr ⟨i, item, hitem, ?_⟩
        rwa [Nat.add_right_comm, Nat.add_assoc]

variable {groups : GroupIndex} {bindings : Bindings} {path : FieldPath} {value : Option Data} {field : Field}
  {fields : List (String × Field)} {frame : Frame} {visit : Visit}

/-- A visit of an object is one of a field of it, at the frame that the fields before leave. -/
theorem mem_visitsOfFields {data : Data} :
    visit ∈ visitsOfFields groups bindings path data fields frame ↔
      ∃ before name field after, fields = before ++ (name, field) :: after ∧
        visit ∈ visitsOfField groups bindings (path.field name) (data.present? name) field
          (frameAfterFields groups data before frame) := by
  induction fields generalizing frame with
  | nil => simp [visitsOfFields]
  | cons head rest ih =>
    obtain ⟨name, field⟩ := head
    rw [visitsOfFields, List.mem_append, ih]
    constructor
    · intro h
      rcases h with h | ⟨before, other, found, after, rfl, h⟩
      · exact ⟨[], name, field, rest, rfl, h⟩
      · exact ⟨(name, field) :: before, other, found, after, rfl, h⟩
    · intro h
      obtain ⟨before, other, found, after, heq, h⟩ := h
      cases before with
      | nil =>
        obtain ⟨hhead, rfl⟩ := List.cons.inj heq
        obtain ⟨rfl, rfl⟩ := Prod.mk.inj hhead
        exact .inl h
      | cons first before =>
        obtain ⟨rfl, rfl⟩ := List.cons.inj heq
        exact .inr ⟨before, other, found, after, rfl, h⟩

/-- Where the shape of a field is gone through: at the value of an object, or at each item of an
array. An array with a group counts its items from where its sibling left off, and each is a scope
of its own. -/
inductive Inside (groups : GroupIndex) (bindings : Bindings) (path : FieldPath) (value : Option Data)
    (field : Field) (frame : Frame) : Bindings → FieldPath → Data → Frame → Prop
  | object (htype : field.type = .object) :
    Inside groups bindings path value field frame bindings path (value.getD (.obj [])) frame
  | shared {fields : List (String × Field)} {i : Nat} {item : Data} (htype : field.type = .objectArray)
      (hgroup : field.group = none) (hshape : field.shape = some fields)
      (hitem : (itemsOf value)[i]? = some item) :
    Inside groups bindings path value field frame bindings (path.item i) (itemData item)
      (((itemsOf value).take i).foldl (fun frame item =>
        frameAfterFields groups (itemData item) fields frame) frame)
  | bound {group : String} {i : Nat} {item : Data} (htype : field.type = .objectArray)
      (hgroup : field.group = some group) (hitem : (itemsOf value)[i]? = some item) :
    Inside groups bindings path value field frame ((group, base groups group frame + i) :: bindings)
      (path.item i)
      (itemData item) []

section Inside

variable {holds : Bindings → FieldPath → Data → Frame → Prop}

theorem exists_inside_object (htype : field.type = .object) :
    (∃ innerBindings innerPath innerData innerFrame,
      Inside groups bindings path value field frame innerBindings innerPath innerData innerFrame ∧
        holds innerBindings innerPath innerData innerFrame) ↔
      holds bindings path (value.getD (.obj [])) frame := by
  constructor
  · intro h
    obtain ⟨_, _, _, _, hinside, hholds⟩ := h
    cases hinside with
    | object => exact hholds
    | shared hother | bound hother => cases htype.symm.trans hother
  · intro hholds
    exact ⟨_, _, _, _, .object htype, hholds⟩

theorem exists_inside_shared (htype : field.type = .objectArray) (hgroup : field.group = none)
    (hshape : field.shape = some fields) :
    (∃ innerBindings innerPath innerData innerFrame,
      Inside groups bindings path value field frame innerBindings innerPath innerData innerFrame ∧
        holds innerBindings innerPath innerData innerFrame) ↔
      ∃ i item, (itemsOf value)[i]? = some item ∧ holds bindings (path.item i) (itemData item)
        (((itemsOf value).take i).foldl (fun frame item =>
          frameAfterFields groups (itemData item) fields frame)
          frame) := by
  constructor
  · intro h
    obtain ⟨_, _, _, _, hinside, hholds⟩ := h
    cases hinside with
    | object hother => cases htype.symm.trans hother
    | shared _ _ hother hitem =>
      obtain rfl := Option.some.inj (hshape.symm.trans hother)
      exact ⟨_, _, hitem, hholds⟩
    | bound _ hother => cases hgroup.symm.trans hother
  · intro h
    obtain ⟨i, item, hitem, hholds⟩ := h
    exact ⟨_, _, _, _, .shared htype hgroup hshape hitem, hholds⟩

theorem exists_inside_bound {group : String} (htype : field.type = .objectArray)
    (hgroup : field.group = some group) :
    (∃ innerBindings innerPath innerData innerFrame,
      Inside groups bindings path value field frame innerBindings innerPath innerData innerFrame ∧
        holds innerBindings innerPath innerData innerFrame) ↔
      ∃ i item, (itemsOf value)[i]? = some item ∧
        holds ((group, base groups group frame + i) :: bindings) (path.item i) (itemData item) [] := by
  constructor
  · intro h
    obtain ⟨_, _, _, _, hinside, hholds⟩ := h
    cases hinside with
    | object hother => cases htype.symm.trans hother
    | shared _ hother => cases hgroup.symm.trans hother
    | bound _ hother hitem =>
      obtain rfl := Option.some.inj (hgroup.symm.trans hother)
      exact ⟨_, _, hitem, hholds⟩
  · intro h
    obtain ⟨i, item, hitem, hholds⟩ := h
    exact ⟨_, _, _, _, .bound htype hgroup hitem, hholds⟩

end Inside

/-- The visits of a field are its own and those inside it. -/
theorem mem_visitsOfField :
    visit ∈ visitsOfField groups bindings path value field frame ↔
      visit = { path, field, value, bindings } ∨
        ∃ fields, field.shape = some fields ∧ ∃ innerBindings innerPath innerData innerFrame,
          Inside groups bindings path value field frame innerBindings innerPath innerData innerFrame ∧
            visit ∈ visitsOfFields groups innerBindings innerPath innerData fields innerFrame := by
  cases field with
  | mk type required shape key group sibling xpath extras transform fallback =>
    cases shape with
    | none => cases type <;> simp [visitsOfField]
    | some fields =>
      simp only [Option.some.injEq, exists_eq_left']
      cases type with
      | scalar _ | choice _ =>
        refine List.mem_cons.trans (or_congr_right (iff_of_false List.not_mem_nil ?_))
        intro h
        obtain ⟨_, _, _, _, hinside, -⟩ := h
        cases hinside <;> contradiction
      | object => rw [visitsOfField, List.mem_cons, exists_inside_object rfl]
      | objectArray =>
        cases group with
        | none =>
          rw [visitsOfField, List.mem_cons, exists_inside_shared rfl rfl rfl, mem_sharedVisits]
          simp only [Nat.zero_add]
        | some group =>
          rw [visitsOfField, List.mem_cons, exists_inside_bound rfl rfl, mem_boundVisits]
          simp only [Nat.zero_add]

end Assembly

open Assembly

/-! ### What they plan -/

/-- What is planned at a visit alone, without what is below it. -/
def Visit.plan (visit : Visit) : Planned Unit :=
  match visit.field.type, visit.field.shape with
  | .scalar _, _ | .choice _, _ =>
    planScalar visit.bindings visit.path visit.field.xpath visit.field.extraEntries
      (resolveValue visit.field.transform visit.field.fallback visit.value)
  | .object, some _ =>
    planObject visit.bindings visit.path visit.field.xpath visit.field.extraEntries
      (visit.value.getD (.obj []))
  | _, _ => pure ()

namespace Assembly

/-- What is planned at visits in order. -/
def planVisits : List Visit → Planned Unit
  | [] => pure ()
  | visit :: rest => do
    visit.plan
    planVisits rest

/-! ### What they write -/

/-- A write of content at a path with the numbers that are bound. -/
def writeAt? (bindings : Bindings) (path : Path) (content : Content) : Option Write :=
  match path.resolve bindings with
  | .ok ((rootName, rootNumber) :: way) => some { path, rootName, rootNumber, way, content }
  | .ok [] | .error _ => none

/-- A text as content of the attribute that a path designates, or of its element. -/
def textContent (path : Path) (text : String) : Content :=
  match path.attr with
  | some name => .attr name text
  | none => .text text

/-- The writes of those extras that have a text. -/
def extraWrites? (bindings : Bindings) (owner : Option Path) (value : Data) :
    List (String × ExtraValue) → Option (List Write)
  | [] => some []
  | (xpath, extra) :: rest => do
    let first ← match extra.render value with
      | none => some []
      | some text => do
        let target ← GroupIndex.extraPath? owner xpath
        (writeAt? bindings target (textContent target text)).map ([·])
    let others ← extraWrites? bindings owner value rest
    some (first ++ others)

/-- The writes at the path of a field, if it has one, and of its extras. -/
def fieldWrites? (bindings : Bindings) (xpath : Option String) (extras : List (String × ExtraValue))
    (content : Path → Content) (value : Data) : Option (List Write) :=
  match xpath with
  | none => extraWrites? bindings none value extras
  | some xpath => do
    let owner ← (Path.read xpath).toOption
    let own ← writeAt? bindings owner (content owner)
    let beside ← extraWrites? bindings (some owner) value extras
    some (own :: beside)

end Assembly

/-- The writes of a visit: the text of a scalar or choice that has a value, the touch of an object that has an
element, and the extras beside it. -/
def Visit.writes? (visit : Visit) : Option (List Write) :=
  match visit.field.type, visit.field.shape with
  | .scalar _, _ | .choice _, _ =>
    match resolveValue visit.field.transform visit.field.fallback visit.value with
    | none => some []
    | some data => do
      let text ← scalarText data
      fieldWrites? visit.bindings visit.field.xpath visit.field.extraEntries (textContent · text) data
  | .object, some _ =>
    if visit.field.xpath.isNone then some []
    else fieldWrites? visit.bindings visit.field.xpath visit.field.extraEntries (fun _ => .touch)
      (visit.value.getD (.obj []))
  | _, _ => some []

namespace Assembly

/-- The writes of visits in order. -/
def writesOf : List Visit → Option (List Write)
  | [] => some []
  | visit :: rest => do
    let first ← visit.writes?
    let others ← writesOf rest
    some (first ++ others)

/-- The writes of texts that stand before all fields. -/
def leadingWrites? : List (String × String) → Option (List Write)
  | [] => some []
  | (xpath, text) :: rest => do
    let path ← (Path.read xpath).toOption
    let first ← writeAt? [] path (textContent path text)
    let others ← leadingWrites? rest
    some (first :: others)

/-- All writes of a document in order: the leading texts, then the visits. -/
def writeList (composed : ComposedSchema) (leading : List (String × String)) (data : Data) :
    Option (List Write) := do
  let first ← leadingWrites? leading
  let others ← writesOf (visits composed data)
  some (first ++ others)

/-- Where there is a list, each visit has its writes. -/
theorem exists_writes?_of_mem {all : List Visit} {writes : List Write}
    (h : writesOf all = some writes) {visit : Visit} (hvisit : visit ∈ all) :
    ∃ own, visit.writes? = some own := by
  induction all generalizing writes with
  | nil => cases hvisit
  | cons first rest ih =>
    simp only [writesOf, bind, Option.bind_eq_some_iff] at h
    obtain ⟨own, hown, others, hothers, -⟩ := h
    rcases List.mem_cons.mp hvisit with rfl | hvisit
    · exact ⟨own, hown⟩
    · exact ih hothers hvisit

/-- Every write is one of a visit. -/
theorem mem_writesOf {all : List Visit} {writes : List Write} (h : writesOf all = some writes)
    (write : Write) :
    write ∈ writes ↔ ∃ visit ∈ all, ∃ own, visit.writes? = some own ∧ write ∈ own := by
  induction all generalizing writes with
  | nil =>
    obtain rfl : [] = writes := Option.some.inj h
    simp
  | cons visit rest ih =>
    simp only [writesOf, bind, Option.bind_eq_some_iff, Option.some.injEq] at h
    obtain ⟨first, hfirst, others, hothers, rfl⟩ := h
    rw [List.mem_append, ih hothers]
    simp [hfirst]

end Assembly

end InvoiceXml
