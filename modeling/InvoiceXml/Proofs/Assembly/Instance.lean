import InvoiceXml.Proofs.Assembly.Locate
import InvoiceXml.Proofs.Schema.Group

/-!
# Scope instances

The numbers of a document are counted in scopes: the document is one, and so is each item of an
array with a group. A scope reaches through objects, and through arrays without a group; what is met
there shares one frame, which starts empty (`Scope.Meets`). `Scope.Of` are the scopes of a document,
and `Scope.Binds` says which number an item of a group is bound to in a scope.

* **`mem_visits_iff`**: the visits of a document are the fields that are met in its scopes, with the
  numbers of these;
* **`frameAfterFields_eq`**: where arrays without a group have none below, the frame is that of the
  groups that are met and the numbers of their items, one after the other (`itemCounts`).
-/

namespace InvoiceXml

/-- Whether an array without a group has no groups below it. -/
def Field.NestsGroups (_names : List String) (field : Field) : Prop :=
  field.type = .objectArray → field.group = none → Schema.fieldGroups field = []

instance Field.decidableNestsGroups (names : List String) :
    (field : Field) → Decidable (field.NestsGroups names)
  | { type := .objectArray, group := none, shape, .. } =>
    decidable_of_iff (Schema.fieldGroups { type := .objectArray, shape } = []) <| by
      cases shape <;> simp [NestsGroups, Schema.fieldGroups]
  | { type := .objectArray, group := some _, .. } => isTrue nofun
  | { type := .scalar _, .. } | { type := .choice _, .. } | { type := .object, .. } => isTrue nofun

/-- Whether every array that has groups below it, at any depth, has a group itself. -/
def Schema.NestsGroups (schema : Schema) : Prop :=
  ∀ entry ∈ schema.entries, entry.field.NestsGroups entry.names

instance (schema : Schema) : Decidable schema.NestsGroups :=
  inferInstanceAs (Decidable (∀ entry ∈ schema.entries, entry.field.NestsGroups entry.names))

namespace Assembly

open Schema (fieldGroups groupNames FieldsHold FieldHolds)

/-! ### Scopes -/

/-- An object that is gone through: its data, its fields, where it stands, and the numbers bound around it. -/
structure Scope where
  bindings : Bindings
  path : FieldPath
  data : Data
  fields : List (String × Field)

namespace Scope

/-- The fields that are met in an object and inside it, as far as no number is bound. Each has a
frame, which is that of all fields met before. -/
inductive Meets (groups : GroupIndex) : Scope → Frame → Visit → Frame → Prop
  | own {scope : Scope} {frame : Frame} {before after : List (String × Field)} {name : String} {field : Field}
      (hfields : scope.fields = before ++ (name, field) :: after) :
      Meets groups scope frame (fieldVisit scope.bindings scope.path scope.data name field)
        (frameAfterFields groups scope.data before frame)
  | inside {scope inner : Scope} {frame innerFrame found : Frame} {before after : List (String × Field)}
      {name : String} {field : Field} {visit : Visit}
      (hfields : scope.fields = before ++ (name, field) :: after)
      (hbound : field.boundGroup? = none) (hshape : field.shape = some inner.fields)
      (hinside : Inside groups scope.bindings (scope.path.field name) (scope.data.present? name) field
        (frameAfterFields groups scope.data before frame) inner.bindings inner.path inner.data innerFrame)
      (hinner : Meets groups inner innerFrame visit found) : Meets groups scope frame visit found

/-- The scope of an item of a group that is met in a scope. Its number is counted from where the
groups that the group follows leave off. -/
inductive Item (groups : GroupIndex) (scope : Scope) (group : String) (i : Nat) : Scope → Prop
  | of_meets {visit : Visit} {frame : Frame} {below : List (String × Field)} {item : Data}
      (hmeets : scope.Meets groups [] visit frame) (hgroup : visit.field.boundGroup? = some group)
      (hshape : visit.field.shape = some below) (hitem : (itemsOf visit.value)[i]? = some item) :
      Item groups scope group i
        ⟨(group, base groups group frame + i) :: scope.bindings, visit.path.item i, itemData item, below⟩

/-- The scopes of a document: itself, and the items of the groups that are met in its scopes. -/
inductive Of (composed : ComposedSchema) (data : Data) : Scope → Prop
  | document : Of composed data ⟨[], [], data, composed.schema⟩
  | item {scope inner : Scope} {group : String} {i : Nat} (hscope : Of composed data scope)
      (hitem : scope.Item composed.groups group i inner) : Of composed data inner

/-- Whether an item of a group is bound to a number in a scope. -/
def Binds (groups : GroupIndex) (group : String) (i number : Nat) (scope : Scope) : Prop :=
  ∃ inner, scope.Item groups group i inner ∧ inner.bindings = (group, number) :: scope.bindings

end Scope

/-! ### Scopes and visits -/

variable {groups : GroupIndex} {bindings : Bindings} {path : FieldPath} {value : Option Data} {data : Data}
  {field : Field} {fields : List (String × Field)} {frame found : Frame} {visit : Visit} {scope : Scope}
  {composed : ComposedSchema} {group : String}

/-- Where no number is bound, what is bound stays. -/
theorem Inside.bindings_eq {innerBindings : Bindings} {innerPath : FieldPath} {innerData : Data}
    {innerFrame : Frame}
    (h : Inside groups bindings path value field frame innerBindings innerPath innerData innerFrame)
    (hbound : field.boundGroup? = none) : innerBindings = bindings := by
  cases h with
  | object | shared => rfl
  | bound htype hgroup =>
    rw [Field.boundGroup?_eq_some_iff.mpr ⟨htype, hgroup⟩] at hbound
    cases hbound

/-- A visit of what is met in a scope is one of the scope. -/
theorem Scope.Meets.mem_visits (h : scope.Meets groups frame visit found) {inner : Visit}
    (hinner : inner ∈ visitsOfField groups scope.bindings visit.path visit.value visit.field found) :
    inner ∈ visitsOfFields groups scope.bindings scope.path scope.data scope.fields frame := by
  induction h with
  | own hfields => exact mem_visitsOfFields.mpr ⟨_, _, _, _, hfields, hinner⟩
  | inside hfields hbound hshape hinside _ ih =>
    rw [← hinside.bindings_eq hbound] at hinner
    refine mem_visitsOfFields.mpr ⟨_, _, _, _, hfields, mem_visitsOfField.mpr (.inr ?_)⟩
    exact ⟨_, hshape, _, _, _, _, hinside, ih hinner⟩

theorem Scope.Meets.bindings_eq (h : scope.Meets groups frame visit found) :
    visit.bindings = scope.bindings := by
  induction h with
  | own => rfl
  | inside _ hbound _ hinside _ ih => rw [ih, hinside.bindings_eq hbound]

/-- The visits of a scope are visits of the document. -/
theorem Scope.Of.mem_visits (h : scope.Of composed data)
    (hvisit : visit ∈ visitsOfFields composed.groups scope.bindings scope.path scope.data scope.fields []) :
    visit ∈ visits composed data := by
  induction h with
  | document => exact hvisit
  | item _ hitem ih =>
    cases hitem with
    | of_meets hmeets hgroup hshape hitem =>
      obtain ⟨htype, hgroup⟩ := Field.boundGroup?_eq_some_iff.mp hgroup
      refine ih (hmeets.mem_visits (mem_visitsOfField.mpr (.inr ?_)))
      exact ⟨_, hshape, _, _, _, _, .bound htype hgroup hitem, hvisit⟩

/-- A visit of an object in a scope is met in the scope or in one inside it. -/
theorem Scope.Of.exists_meets :
    ∀ (fields : List (String × Field)) {scope : Scope} {path : FieldPath} {inner : Data}
      {frame : Frame}, scope.Of composed data → (∀ visit found, Scope.Meets composed.groups
      ⟨scope.bindings, path, inner, fields⟩ frame visit found → scope.Meets composed.groups [] visit found) →
      visit ∈ visitsOfFields composed.groups scope.bindings path inner fields frame →
        ∃ scope : Scope, scope.Of composed data ∧ ∃ found, scope.Meets composed.groups [] visit found := by
  refine Schema.induction_on_shapes fun fields ih => ?_
  intro scope path inner frame hscope hlift hvisit
  obtain ⟨before, name, field, after, rfl, hfield⟩ := mem_visitsOfFields.mp hvisit
  have hmem : (name, field) ∈ before ++ (name, field) :: after := by simp
  have hown := hlift _ _ (.own rfl)
  rcases mem_visitsOfField.mp hfield with rfl | ⟨below, hshape, _, _, _, _, hinside, hinner⟩
  · exact ⟨scope, hscope, _, hown⟩
  · cases hbound : field.boundGroup? with
    | none =>
      obtain rfl := hinside.bindings_eq hbound
      refine ih name field below hmem hshape hscope (fun visit found hmeets => ?_) hinner
      exact hlift _ _ (by refine .inside rfl hbound ?_ ?_ hmeets <;> assumption)
    | some group =>
      -- the shape is gone through item by item, each in a scope of its own
      cases hinside with
      | object htype => cases (Field.boundGroup?_eq_some_iff.mp hbound).1.symm.trans htype
      | shared _ hgroup => cases (Field.boundGroup?_eq_some_iff.mp hbound).2.symm.trans hgroup
      | bound htype hgroup hitem =>
        have hgroup := Field.boundGroup?_eq_some_iff.mpr ⟨htype, hgroup⟩
        have hof := Scope.Of.item hscope (.of_meets hown hgroup hshape hitem)
        exact ih name field below hmem hshape hof (fun visit found hmeets => hmeets) hinner

/-- **Visits are what scopes meet.** A field is visited iff it is met in a scope of the document. -/
theorem mem_visits_iff : visit ∈ visits composed data ↔
    ∃ scope : Scope, scope.Of composed data ∧ ∃ frame, scope.Meets composed.groups [] visit frame := by
  constructor
  · exact Scope.Of.exists_meets composed.schema .document fun _ _ hmeets => hmeets
  · intro h
    obtain ⟨scope, hscope, frame, hmeets⟩ := h
    refine hscope.mem_visits (hmeets.mem_visits (mem_visitsOfField.mpr (.inl ?_)))
    rw [← hmeets.bindings_eq]

/-! ### Frames -/

mutual

/-- The groups that are met at the value of a field, as far as no number is bound, each with the
number of its items. -/
def fieldCounts (value : Option Data) : Field → List (String × Nat)
  | { type, shape, group, .. } =>
    match type, shape with
    | .object, some fields => itemCounts (value.getD (.obj [])) fields
    | .objectArray, some _ => (group.map fun group => (group, (itemsOf value).length)).toList
    | _, _ => []

/-- The groups that are met in an object, in order of declaration, each with the number of its items. -/
def itemCounts (data : Data) : List (String × Field) → List (String × Nat)
  | [] => []
  | (name, field) :: rest => fieldCounts (data.present? name) field ++ itemCounts data rest

end

/-- The frame behind the items of one more group. -/
def advance (groups : GroupIndex) (frame : Frame) (count : String × Nat) : Frame :=
  frame.set count.1 (base groups count.1 frame + count.2)

theorem itemCounts_append (data : Data) (before after : List (String × Field)) :
    itemCounts data (before ++ after) = itemCounts data before ++ itemCounts data after := by
  induction before with
  | nil => rfl
  | cons head rest ih => rw [List.cons_append, itemCounts, itemCounts, ih, List.append_assoc]

mutual

theorem names_fieldCounts_subset (value : Option Data) :
    ∀ field : Field, (fieldCounts value field).map (·.1) ⊆ fieldGroups field
  | { type, required, shape, key, group, sibling, xpath, extras, transform, fallback } => by
    cases shape with
    | none => cases type <;> exact List.nil_subset _
    | some fields =>
      rw [Schema.fieldGroups_of_shape rfl]
      cases type with
      | scalar _ | choice _ => exact List.nil_subset _
      | object => exact List.Subset.trans (names_itemCounts_subset _ fields) (List.subset_append_right _ _)
      | objectArray => cases group <;> simp [fieldCounts, Field.boundGroup?]

/-- Groups that are met are bound by the fields. -/
theorem names_itemCounts_subset (data : Data) :
    ∀ fields : List (String × Field), (itemCounts data fields).map (·.1) ⊆ groupNames fields
  | [] => List.nil_subset _
  | (name, field) :: rest => by
    rw [itemCounts, List.map_append, groupNames]
    exact List.append_subset.mpr
      ⟨List.Subset.trans (names_fieldCounts_subset _ field) (List.subset_append_left _ _),
        List.Subset.trans (names_itemCounts_subset data rest) (List.subset_append_right _ _)⟩

end

mutual

theorem frameAfterField_of_groupless (value : Option Data) (frame : Frame) :
    ∀ field : Field, fieldGroups field = [] → frameAfterField groups value field frame = frame
  | { type, required, shape, key, group, sibling, xpath, extras, transform, fallback }, h => by
    cases shape with
    | none => cases type <;> rfl
    | some fields =>
      rw [Schema.fieldGroups_of_shape rfl, List.append_eq_nil_iff] at h
      cases type with
      | scalar _ | choice _ => rfl
      | object => exact frameAfterFields_of_groupless _ frame fields h.2
      | objectArray =>
        cases group with
        | some group => cases h.1
        | none =>
          rw [frameAfterField]
          induction itemsOf value with
          | nil => rfl
          | cons item rest ih => rw [List.foldl_cons, frameAfterFields_of_groupless _ frame fields h.2, ih]

/-- Where no group is met the frame stays. -/
theorem frameAfterFields_of_groupless (data : Data) (frame : Frame) :
    ∀ fields : List (String × Field), groupNames fields = [] →
      frameAfterFields groups data fields frame = frame
  | [], _ => rfl
  | (name, field) :: rest, h => by
    obtain ⟨hfield, hrest⟩ := List.append_eq_nil_iff.mp h
    rw [frameAfterFields, frameAfterField_of_groupless _ frame field hfield,
      frameAfterFields_of_groupless data frame rest hrest]

end

mutual

theorem frameAfterField_eq (value : Option Data) : ∀ (field : Field) {names : List String} (frame : Frame),
    FieldHolds Field.NestsGroups names field →
      frameAfterField groups value field frame = (fieldCounts value field).foldl (advance groups) frame
  | { type, required, shape, key, group, sibling, xpath, extras, transform, fallback }, names, frame, h => by
    obtain ⟨hnests, hshape⟩ := Schema.fieldHolds_iff_shape.mp h
    cases shape with
    | none => cases type <;> rfl
    | some fields =>
      cases type with
      | scalar _ | choice _ => rfl
      | object => exact frameAfterFields_eq _ fields frame (hshape fields rfl)
      | objectArray =>
        cases group with
        | some group => rfl
        | none => exact frameAfterField_of_groupless value frame _ (hnests rfl rfl)

/-- **A frame is what the counts make of it.** Where arrays without a group have none below them,
the frame after fields is that after the items of each group that is met. -/
theorem frameAfterFields_eq (data : Data) :
    ∀ (fields : List (String × Field)) {names : List String} (frame : Frame),
      FieldsHold Field.NestsGroups names fields →
      frameAfterFields groups data fields frame = (itemCounts data fields).foldl (advance groups) frame
  | [], _, _, _ => rfl
  | (name, field) :: rest, names, frame, h => by
    rw [frameAfterFields, itemCounts, List.foldl_append, frameAfterField_eq _ field frame h.1,
      frameAfterFields_eq data rest _ h.2]

end

end Assembly

end InvoiceXml
