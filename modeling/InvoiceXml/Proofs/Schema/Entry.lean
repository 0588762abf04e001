import InvoiceXml.Schema.Group
import InvoiceXml.Schema.Merge
import Mathlib.Data.List.InsertIdx

/-!
# Entries of a schema

The fields of a schema at every depth, in order of declaration and each before those of its shape
(`Schema.entries`). An entry knows the names on the way to its field and the groups that are bound
around it, outermost first.

* **`visitFields_eq`**: indexing the groups of fields is indexing their entries one after the other;
* `FieldsHold` says of all fields at every depth what may be said of a field and its names;
  `fieldsHold_iff` ties it to the entries;
* **`fieldsHold_merge`**: what every field of two schemas has, every field of one merged over the
  other has, if overriding keeps it.
-/

namespace InvoiceXml

/-- A field of a schema, the names on the way to it, and the groups that are bound around it. -/
structure Entry where
  names : List String
  scope : List String
  field : Field

theorem Field.boundGroup?_eq_some_iff {field : Field} {group : String} :
    field.boundGroup? = some group ↔ field.type = .objectArray ∧ field.group = some group := by
  rw [Field.boundGroup?]
  cases field.type <;> cases field.group <;> simp

namespace Schema

/-! ### Induction on depth -/

section Induction

variable {motive : List (String × Field) → Prop}

/-- Whether the motive holds of fields if it holds of every shape among them. -/
def FollowsFromShapes (motive : List (String × Field) → Prop) : Prop :=
  ∀ fields, (∀ name field below, (name, field) ∈ fields → field.shape = some below → motive below) →
    motive fields

mutual

theorem induction_shape (step : FollowsFromShapes motive) :
    ∀ (field : Field) (below : List (String × Field)), field.shape = some below → motive below
  | { shape := none, .. }, below, h => nomatch h
  | { shape := some fields, .. }, below, h => by
    obtain rfl : fields = below := Option.some.inj h
    exact step fields fun name field inner hmem hshape =>
      induction_mem step fields name field inner hmem hshape

theorem induction_mem (step : FollowsFromShapes motive) :
    ∀ (fields : List (String × Field)) (name : String) (field : Field) (below : List (String × Field)),
      (name, field) ∈ fields → field.shape = some below → motive below
  | [], _, _, _, hmem, _ => nomatch hmem
  | (_, first) :: rest, name, field, below, hmem, hshape => by
    rcases List.mem_cons.mp hmem with heq | hmem
    · obtain ⟨-, rfl⟩ := Prod.mk.inj heq
      exact induction_shape step field below hshape
    · exact induction_mem step rest name field below hmem hshape

end

/-- What holds of fields if it holds of all shapes among them holds of all fields. -/
theorem induction_on_shapes (step : FollowsFromShapes motive) (fields : List (String × Field)) :
    motive fields :=
  step fields (induction_mem step fields)

end Induction

mutual

/-- The entry of a field, and those of the fields in its shape. -/
def entriesOfField (names scope : List String) : Field → List Entry
  | { type, required, shape, key, group, sibling, xpath, extras, transform, fallback } =>
    let field : Field := { type, required, shape, key, group, sibling, xpath, extras, transform, fallback }
    { names, scope, field } ::
      match shape with
      | some fields => entriesBelow names (scope ++ field.boundGroup?.toList) fields
      | none => []

/-- The entries of fields below names, with groups bound around them. -/
def entriesBelow (names scope : List String) : List (String × Field) → List Entry
  | [] => []
  | (name, field) :: rest => entriesOfField (names ++ [name]) scope field ++ entriesBelow names scope rest

end

/-- The fields of a schema at every depth. -/
def entries (schema : Schema) : List Entry := entriesBelow [] [] schema

theorem entriesOfField_eq_cons (names scope : List String) (field : Field) :
    entriesOfField names scope field =
      { names, scope, field } :: entriesBelow names (scope ++ field.boundGroup?.toList)
        (field.shape.getD []) := by
  cases field with
  | mk type required shape key group sibling xpath extras transform fallback => cases shape <;> rfl

theorem mem_entriesOfField {names scope : List String} {field : Field} {entry : Entry} :
    entry ∈ entriesOfField names scope field ↔
      entry = { names, scope, field } ∨
        ∃ fields, field.shape = some fields ∧
          entry ∈ entriesBelow names (scope ++ field.boundGroup?.toList) fields := by
  cases field with
  | mk type required shape key group sibling xpath extras transform fallback =>
    cases shape <;> simp [entriesOfField]

theorem self_mem_entriesOfField (names scope : List String) (field : Field) :
    { names, scope, field } ∈ entriesOfField names scope field :=
  mem_entriesOfField.mpr (.inl rfl)

theorem mem_entriesBelow {names scope : List String} {fields : List (String × Field)} {entry : Entry} :
    entry ∈ entriesBelow names scope fields ↔
      ∃ name field, (name, field) ∈ fields ∧ entry ∈ entriesOfField (names ++ [name]) scope field := by
  induction fields with
  | nil => simp [entriesBelow]
  | cons head rest ih =>
    obtain ⟨name, field⟩ := head
    rw [entriesBelow, List.mem_append, ih]
    constructor
    · intro h
      rcases h with h | ⟨other, found, hmem, h⟩
      · exact ⟨name, field, List.mem_cons_self, h⟩
      · exact ⟨other, found, List.mem_cons_of_mem _ hmem, h⟩
    · intro h
      obtain ⟨other, found, hmem, h⟩ := h
      rcases List.mem_cons.mp hmem with heq | hmem
      · obtain ⟨rfl, rfl⟩ := Prod.mk.inj heq
        exact .inl h
      · exact .inr ⟨other, found, hmem, h⟩

/-! ### Indexing entry by entry -/

/-- The path of a field by its names. -/
def dotted (names : List String) : String := names.foldl below ""

theorem dotted_append (names : List String) (name : String) :
    dotted (names ++ [name]) = below (dotted names) name := by
  rw [dotted, List.foldl_append]
  rfl

end Schema

open Schema

/-- Indexes an entry alone, without those of its shape. -/
def Entry.addTo (index : GroupIndex) (entry : Entry) : Except SchemaError GroupIndex := do
  let index ← index.addPaths (dotted entry.names) entry.field entry.scope
  if entry.field.sibling.isSome ∧ entry.field.boundGroup?.isNone then
    .error (.composition (dotted entry.names) .misplacedSibling)
  else
    match entry.field.shape, entry.field.boundGroup? with
    | some _, some group => index.register group (dotted entry.names) entry.field.sibling entry.scope
    | _, _ => .ok index

namespace GroupIndex

mutual

theorem visitField_eq (names scope : List String) :
    ∀ (field : Field) (index : GroupIndex),
      visitField (dotted names) scope field index =
        (entriesOfField names scope field).foldlM Entry.addTo index
  | { type, required, shape, key, group, sibling, xpath, extras, transform, fallback }, index => by
    -- what is indexed of the field alone does not depend on the shape
    let bare : Field := { type, required, key, group, sibling, xpath, extras, transform, fallback }
    cases shape with
    | none =>
      simp only [visitField, entriesOfField, List.foldlM_cons, List.foldlM_nil, Entry.addTo, bind_pure]
    | some fields =>
      have hbound : Field.boundGroup?
          { type, required, shape := some fields, key, group, sibling, xpath, extras, transform, fallback } =
        bare.boundGroup? := rfl
      simp only [visitField, entriesOfField, List.foldlM_cons, Entry.addTo, bind_assoc, hbound]
      refine congrArg _ (funext fun index => ?_)
      show (if sibling.isSome = true ∧ bare.boundGroup?.isNone = true then _ else _) = _
      split
      · rfl
      · cases bare.boundGroup? with
        | none =>
          simp only [Option.toList_none, List.append_nil]
          exact visitFields_eq names scope fields index
        | some bound =>
          show (index.register bound (dotted names) sibling scope >>=
              visitFields (dotted names) (scope ++ [bound]) fields) =
            index.register bound (dotted names) sibling scope >>= fun index =>
              (entriesBelow names (scope ++ [bound]) fields).foldlM Entry.addTo index
          exact congrArg _ (funext fun index => visitFields_eq names (scope ++ [bound]) fields index)

/-- **Indexing is flat.** The groups of fields are indexed entry by entry. -/
theorem visitFields_eq (names scope : List String) :
    ∀ (fields : List (String × Field)) (index : GroupIndex),
      visitFields (dotted names) scope fields index =
        (entriesBelow names scope fields).foldlM Entry.addTo index
  | [], index => rfl
  | (name, field) :: rest, index => by
    rw [visitFields, entriesBelow, List.foldlM_append, ← dotted_append, visitField_eq]
    exact congrArg _ (funext fun index => visitFields_eq names scope rest index)

end

theorem build_eq (schema : Schema) : build schema = schema.entries.foldlM Entry.addTo {} :=
  visitFields_eq [] [] schema {}

end GroupIndex

/-! ### What holds of all fields -/

namespace Schema

variable (holds : List String → Field → Prop)

mutual

/-- What holds of a field and its names holds of the field and of all fields in its shape. -/
def FieldHolds (names : List String) : Field → Prop
  | { type, required, shape, key, group, sibling, xpath, extras, transform, fallback } =>
    holds names { type, required, shape, key, group, sibling, xpath, extras, transform, fallback } ∧
      match shape with
      | some fields => FieldsHold names fields
      | none => True

/-- What holds of a field and its names holds of all fields at every depth. -/
def FieldsHold (names : List String) : List (String × Field) → Prop
  | [] => True
  | (name, field) :: rest => FieldHolds (names ++ [name]) field ∧ FieldsHold names rest

end

variable {holds}

theorem fieldHolds_iff_shape {names : List String} {field : Field} :
    FieldHolds holds names field ↔
      holds names field ∧ ∀ fields, field.shape = some fields → FieldsHold holds names fields := by
  cases field with
  | mk type required shape key group sibling xpath extras transform fallback =>
    cases shape <;> simp [FieldHolds]

theorem fieldsHold_iff_mem {names : List String} {fields : List (String × Field)} :
    FieldsHold holds names fields ↔
      ∀ name field, (name, field) ∈ fields → FieldHolds holds (names ++ [name]) field := by
  induction fields with
  | nil => simp [FieldsHold]
  | cons head rest ih =>
    obtain ⟨name, field⟩ := head
    rw [FieldsHold, ih]
    constructor
    · rintro ⟨hfield, hrest⟩ other found hmem
      rcases List.mem_cons.mp hmem with heq | hmem
      · obtain ⟨rfl, rfl⟩ := Prod.mk.inj heq
        exact hfield
      · exact hrest other found hmem
    · intro hall
      exact ⟨hall name field List.mem_cons_self, fun other found hmem =>
        hall other found (List.mem_cons_of_mem _ hmem)⟩

/-- What holds of all fields holds of those before one of them, and of that one and its shape. -/
theorem FieldsHold.split {names : List String} {before after : List (String × Field)}
    {name : String} {field : Field} (h : FieldsHold holds names (before ++ (name, field) :: after)) :
    FieldsHold holds names before ∧ holds (names ++ [name]) field ∧
      ∀ fields, field.shape = some fields → FieldsHold holds (names ++ [name]) fields := by
  rw [fieldsHold_iff_mem] at h
  exact ⟨fieldsHold_iff_mem.mpr fun other found hmem => h other found (List.mem_append_left _ hmem),
    fieldHolds_iff_shape.mp (h name field (by simp))⟩

mutual

theorem fieldHolds_iff (names scope : List String) :
    ∀ field : Field, FieldHolds holds names field ↔
      ∀ entry ∈ entriesOfField names scope field, holds entry.names entry.field
  | { type, required, shape, key, group, sibling, xpath, extras, transform, fallback } => by
    cases shape with
    | none => simp [FieldHolds, entriesOfField]
    | some fields =>
      simp only [FieldHolds, entriesOfField, List.forall_mem_cons]
      exact and_congr_right fun _ => fieldsHold_iff names _ fields

/-- What holds of all fields at every depth is what holds of all entries. -/
theorem fieldsHold_iff (names scope : List String) :
    ∀ fields : List (String × Field), FieldsHold holds names fields ↔
      ∀ entry ∈ entriesBelow names scope fields, holds entry.names entry.field
  | [] => by simp [FieldsHold, entriesBelow]
  | (name, field) :: rest => by
    rw [FieldsHold, entriesBelow, List.forall_mem_append, fieldHolds_iff (names ++ [name]) scope field,
      fieldsHold_iff names scope rest]

end

/-! ### Merging -/

/-- What holds of a field and of a layer of it holds of the field under the layer, whatever its shape. -/
def KeptByOverride (holds : List String → Field → Prop) : Prop :=
  ∀ names base layer shape, holds names base → holds names layer → holds names (base.override layer shape)

theorem fieldsHold_insert {names : List String} {name : String} {field : Field} {schema : Schema}
    (hschema : FieldsHold holds names schema) (hfield : FieldHolds holds (names ++ [name]) field) :
    FieldsHold holds names (schema.insert name field) := by
  induction schema with
  | nil => exact ⟨hfield, trivial⟩
  | cons head rest ih =>
    obtain ⟨other, old⟩ := head
    obtain ⟨hold, hrest⟩ := hschema
    rw [insert]
    split
    · rename_i hname
      exact ⟨hname ▸ hfield, hrest⟩
    · exact ⟨hold, ih hrest⟩

theorem fieldsHold_place {names : List String} {name : String} {field : Field} {schema : Schema}
    (following : List String) (hschema : FieldsHold holds names schema)
    (hfield : FieldHolds holds (names ++ [name]) field) :
    FieldsHold holds names (schema.place name field following) := by
  rw [fieldsHold_iff_mem] at hschema ⊢
  have hnew : ∀ other found, (other, found) ∈ schema ∨ (other, found) = (name, field) →
      FieldHolds holds (names ++ [other]) found := by
    rintro other found (hmem | heq)
    · exact hschema other found hmem
    · obtain ⟨rfl, rfl⟩ := Prod.mk.inj heq
      exact hfield
  intro other found hmem
  apply hnew
  rw [place] at hmem
  split at hmem
  · exact (List.eq_or_mem_of_mem_insertIdx hmem).symm
  · simpa using hmem

theorem fieldHolds_of_find? {names : List String} {name : String} {field : Field} {schema : Schema}
    (hschema : FieldsHold holds names schema) (hfind : schema.find? name = some field) :
    FieldHolds holds (names ++ [name]) field := by
  induction schema with
  | nil => cases hfind
  | cons head rest ih =>
    obtain ⟨other, found⟩ := head
    rw [find?] at hfind
    split at hfind
    · rename_i hname
      obtain rfl := Option.some.inj hfind
      exact hname ▸ hschema.1
    · exact ih hschema.2 hfind

theorem mergeField_eq (base layer : Field) :
    mergeField base layer =
      base.override layer (mergedShape base layer (match layer.shape with
        | some fields => mergeFields (base.shape.getD []) fields
        | none => base.shape.getD [])) := by
  cases layer with
  | mk type required shape key group sibling xpath extras transform fallback =>
    cases shape <;> simp only [mergeField]

mutual

theorem fieldHolds_mergeField (hkept : KeptByOverride holds) (names : List String) (base : Field)
    (hbase : FieldHolds holds names base) :
    ∀ layer : Field, FieldHolds holds names layer → FieldHolds holds names (mergeField base layer)
  | { type, required, shape, key, group, sibling, xpath, extras, transform, fallback }, hlayer => by
    obtain ⟨hbaseOwn, hbaseShape⟩ := fieldHolds_iff_shape.mp hbase
    obtain ⟨hlayerOwn, hlayerShape⟩ := fieldHolds_iff_shape.mp hlayer
    have hbelow : FieldsHold holds names (base.shape.getD []) := by
      cases hshape : base.shape with
      | none => trivial
      | some fields => exact hbaseShape fields hshape
    rw [mergeField_eq, fieldHolds_iff_shape]
    refine ⟨hkept names _ _ _ hbaseOwn hlayerOwn, fun fields hfields => ?_⟩
    change mergedShape base _ _ = some fields at hfields
    rw [mergedShape] at hfields
    split at hfields
    · split at hfields
      · obtain rfl := Option.some.inj hfields
        cases shape with
        | none => exact hbelow
        | some added => exact fieldsHold_mergeFields hkept names _ hbelow added (hlayerShape added rfl)
      · cases hfields
    · rcases Option.or_eq_some_iff.mp hfields with h | ⟨-, h⟩
      · exact hlayerShape fields h
      · exact hbaseShape fields h

theorem fieldsHold_mergeFields (hkept : KeptByOverride holds) (names : List String) (base : Schema)
    (hbase : FieldsHold holds names base) :
    ∀ layer : List (String × Field), FieldsHold holds names layer →
      FieldsHold holds names (mergeFields base layer)
  | [], _ => by
    rw [mergeFields]
    exact hbase
  | (name, field) :: rest, ⟨hfield, hrest⟩ => by
    rw [mergeFields]
    split
    · rename_i old hfind
      have hmerged :=
        fieldHolds_mergeField hkept (names ++ [name]) old (fieldHolds_of_find? hbase hfind) field hfield
      exact fieldsHold_mergeFields hkept names _ (fieldsHold_insert hbase hmerged) rest hrest
    · exact fieldsHold_mergeFields hkept names _ (fieldsHold_place _ hbase hfield) rest hrest

end

/-- **What merging keeps.** What holds of every field of a schema and of a layer holds of every
field of the layer over the schema. -/
theorem fieldsHold_merge (hkept : KeptByOverride holds) {base layer : Schema}
    (hbase : FieldsHold holds [] base) (hlayer : FieldsHold holds [] layer) :
    FieldsHold holds [] (base.merge layer) :=
  fieldsHold_mergeFields hkept [] base hbase layer hlayer

end Schema

end InvoiceXml
