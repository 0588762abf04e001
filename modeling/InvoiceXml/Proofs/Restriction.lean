import InvoiceXml.Proofs.Schema.Extension
import InvoiceXml.Proofs.Validation

/-!
# Data under a schema and its extensions

A schema that extends another accepts less. What it accepts the other accepts, too, and the normal
form under the other is the normal form under the extension without the members that only the
extension declares (`Data.restrict`). For this, fields of both must agree: they are of one kind,
both or neither must be given, and scalars accept the same values with the same results
(`Field.Agrees`).

* **`validate_of_fieldsExtend`**: data that is valid under an extension is valid under the schema;
* **`validate_of_validate_merge`**: data that is valid under a layer over a schema is valid under
  the schema, if no field of it is declared in a way that accepts other values.
-/

namespace InvoiceXml

open Schema (WellFormed FieldsExtend FieldExtends ShapeExtends)

/-! ### Restricted data -/

namespace Data

mutual

/-- The data without the members that no field declares, at every depth. The items of an array are
restricted in turn. -/
def restrict (fields : Schema) : Data → Data
  | arr items => arr (restrictItems fields items)
  | obj members => obj (restrictMembers fields members)
  | null => null
  | bool b => bool b
  | num n => num n
  | str s => str s

def restrictItems (fields : Schema) : List Data → List Data
  | [] => []
  | item :: rest => restrict fields item :: restrictItems fields rest

def restrictMembers (fields : Schema) : List (String × Data) → List (String × Data)
  | [] => []
  | (name, value) :: rest =>
    match fields.find? name with
    | none => restrictMembers fields rest
    | some { shape := none, .. } => (name, value) :: restrictMembers fields rest
    | some { shape := some below, .. } => (name, restrict below value) :: restrictMembers fields rest

end

/-- The value of a field without the members that its shape does not declare; a scalar stays as it is. -/
def restrictTo (shape : Option Schema) (value : Data) : Data :=
  match shape with
  | none => value
  | some below => value.restrict below

variable {fields : Schema} {name : String}

theorem restrictItems_eq_map (items : List Data) :
    restrictItems fields items = items.map (restrict fields) := by
  induction items with
  | nil => rfl
  | cons item rest ih => rw [restrictItems, ih, List.map_cons]

theorem restrictMembers_cons_of_new (hnew : fields.find? name = none) (value : Data)
    (members : List (String × Data)) :
    restrictMembers fields ((name, value) :: members) = restrictMembers fields members := by
  rw [restrictMembers, hnew]

theorem restrictMembers_cons_of_declared {field : Field} (hfind : fields.find? name = some field)
    (value : Data) (members : List (String × Data)) :
    restrictMembers fields ((name, value) :: members) =
      (name, value.restrictTo field.shape) :: restrictMembers fields members := by
  cases field with
  | mk type required shape key group sibling xpath extras transform fallback =>
    cases shape <;> rw [restrictMembers, hfind] <;> rfl

/-- A field whose name is not among the keys plays no part. -/
theorem restrictMembers_cons_left {members : List (String × Data)}
    (hname : name ∉ members.map (·.1)) (field : Field) :
    restrictMembers ((name, field) :: fields) members = restrictMembers fields members := by
  induction members with
  | nil => rfl
  | cons member rest ih =>
    obtain ⟨key, value⟩ := member
    rw [List.map_cons, List.mem_cons, not_or] at hname
    have hskip : Schema.find? key ((name, field) :: fields) = fields.find? key := by
      rw [Schema.find?, if_neg hname.1]
    cases hfind : fields.find? key with
    | none =>
      rw [restrictMembers_cons_of_new (hskip.trans hfind), restrictMembers_cons_of_new hfind, ih hname.2]
    | some found =>
      rw [restrictMembers_cons_of_declared (hskip.trans hfind),
        restrictMembers_cons_of_declared hfind, ih hname.2]

theorem keys_restrictMembers_sublist (members : List (String × Data)) :
    ((restrictMembers fields members).map (·.1)).Sublist (members.map (·.1)) := by
  induction members with
  | nil => exact List.Sublist.refl []
  | cons member rest ih =>
    obtain ⟨key, value⟩ := member
    cases hfind : fields.find? key with
    | none =>
      rw [restrictMembers_cons_of_new hfind]
      exact ih.cons key
    | some field =>
      rw [restrictMembers_cons_of_declared hfind]
      exact ih.cons_cons key

/-- Restricting commutes with making an object of members whose keys are different from each other. -/
theorem restrict_obj_membersOf {members : List (String × Data)} (hdistinct : (members.map (·.1)).Nodup) :
    restrict fields (obj (membersOf members)) = obj (membersOf (restrictMembers fields members)) := by
  rw [membersOf_of_nodup hdistinct,
    membersOf_of_nodup ((keys_restrictMembers_sublist members).nodup hdistinct)]
  rfl

end Data

/-! ### Fields that agree -/

/-- Whether two types accept the same values with the same results. -/
def FieldType.SameValues (type other : FieldType) : Prop :=
  ∀ path value,
    (Validation.validateField path value { type }).toOption =
      (Validation.validateField path value { type := other }).toOption

/-- Whether two fields are of one kind, both or neither must be given, and scalars accept the same values. -/
structure Field.Agrees (field other : Field) : Prop where
  kind : field.type.isSameKind other.type = true
  required : field.isRequired = other.isRequired
  values : field.type.isObjectLike = false → field.type.SameValues other.type

/-- Whether a layer of a field is of its kind, leaves open whether it must be given or says the
same, and as a scalar accepts the same values. -/
structure Field.KeptBy (field layer : Field) : Prop where
  kind : field.type.isSameKind layer.type = true
  required : layer.required = none ∨ layer.required = some field.isRequired
  values : field.type.isObjectLike = false → field.type.SameValues layer.type

namespace Field

theorem agrees_refl (field : Field) : field.Agrees field :=
  ⟨field.type.isSameKind_self, rfl, fun _ _ _ => rfl⟩

theorem Agrees.trans {lower middle upper : Field} (hlower : lower.Agrees middle)
    (hupper : middle.Agrees upper) :
    lower.Agrees upper where
  kind := FieldType.isSameKind_trans hlower.kind hupper.kind
  required := hlower.required.trans hupper.required
  values hscalar path value := by
    have hmiddle := FieldType.isObjectLike_of_isSameKind hlower.kind ▸ hscalar
    exact (hlower.values hscalar path value).trans (hupper.values hmiddle path value)

/-- A field that a layer keeps agrees with the field under the layer. -/
theorem KeptBy.agrees {base layer : Field} (h : base.KeptBy layer) (shape : Option Schema) :
    base.Agrees (base.override layer shape) where
  kind := h.kind
  required := by
    show base.isRequired = (layer.required.or base.required).getD true
    rcases h.required with hnone | hsame
    · rw [hnone]
      rfl
    · rw [hsame]
      rfl
  values := h.values

end Field

namespace Validation

open Assembly (itemData)
open Data (membersOf restrict restrictItems restrictMembers restrictTo)

variable {added : Field → Prop}

/-- Without a shape it matters only for the words of an error what a field is besides its type. -/
theorem toOption_validateField {field : Field} (hshape : field.shape = none) (path : FieldPath)
    (value : Option Data) :
    (validateField path value field).toOption =
      (validateField path value { type := field.type }).toOption := by
  cases field with
  | mk type required shape key group sibling xpath extras transform fallback =>
    obtain rfl : shape = none := hshape
    cases type with
    | object | objectArray => rfl
    | scalar validator =>
      simp only [validateField, scalar]
      cases validator.check (value.getD .null) <;> rfl
    | choice members =>
      simp only [validateField, choice]
      cases members.isEmpty with
      | true => rfl
      | false =>
        cases value with
        | none => rfl
        | some data =>
          cases data with
          | str s =>
            simp only [Bool.false_eq_true, if_false]
            cases members.contains s <;> rfl
          | null | bool _ | num _ | arr _ | obj _ => rfl

/-- Items that one check accepts another accepts, too, if it does so for each of them. -/
theorem items_of_items {check other : FieldPath → Data → Except ValidationError Data} {change : Data → Data}
    (hcheck : ∀ place item normal, check place item = .ok normal → other place item = .ok (change normal))
    {path : FieldPath} {number : Nat} {data checked : List Data}
    (h : items check path number data = .ok checked) :
    items other path number data = .ok (checked.map change) := by
  obtain ⟨hlength, hall⟩ := items_eq_ok_iff.mp h
  refine items_eq_ok_iff.mpr ⟨by simpa using hlength, fun i item normal hitem hnormal => ?_⟩
  rw [List.getElem?_map, Option.map_eq_some_iff] at hnormal
  obtain ⟨found, hfound, rfl⟩ := hnormal
  obtain ⟨hobject, hvalid⟩ := hall i item found hitem hfound
  exact ⟨hobject, hcheck _ _ _ hvalid⟩

/-! ### Fields of an extension -/

/-- Whether the members of an object that is valid under fields are valid under all that they
extend, and of their normal forms the declared part is left. -/
def RestrictsFrom (added : Field → Prop) (fields : List (String × Field)) : Prop :=
  ∀ (base : Schema) (path : FieldPath) (input : Data) (members : List (String × Data)),
    FieldsExtend Field.Agrees added base fields → WellFormed fields →
    validateFields path input fields = .ok members →
    validateFields path input base = .ok (restrictMembers base members)

theorem checkObject_of_extends {fields below : Schema} (hbelow : RestrictsFrom added fields)
    (hextends : FieldsExtend Field.Agrees added below fields) (hformed : WellFormed fields) {path : FieldPath}
    {input normal : Data} (h : checkObject fields path input = .ok normal) :
    checkObject below path input = .ok (normal.restrict below) := by
  obtain ⟨members, hmembers, h⟩ := bind_eq_ok.mp h
  obtain rfl := Except.ok.inj h
  have hkeys := (keys_of_validateFields hmembers).nodup hformed.distinct
  rw [checkObject, hbelow _ _ _ _ hextends hformed hmembers, Data.restrict_obj_membersOf hkeys]
  rfl

/-- The value of a field that is valid is valid for the field that it extends. -/
theorem validateField_of_extends {field old : Field}
    (hbelow : ∀ fields, field.shape = some fields → RestrictsFrom added fields)
    (hextends : FieldExtends Field.Agrees added old field) (hformed : field.WellFormed) {path : FieldPath}
    {value normal : Option Data} (h : validateField path value field = .ok normal) :
    validateField path value old = .ok (normal.map (restrictTo old.shape)) := by
  obtain ⟨hagrees, hshapes⟩ := Schema.fieldExtends_iff.mp hextends
  obtain ⟨hfits, hinner⟩ := Field.wellFormed_iff.mp hformed
  rcases Schema.shapeExtends_iff.mp hshapes with ⟨holdNone, hnone⟩
    | ⟨below, fields, holdShape, hshape, hfields⟩
  · have hscalar : old.type.isObjectLike = false := by
      rw [FieldType.isObjectLike_of_isSameKind hagrees.kind, hfits, hnone]
      rfl
    have hsame : (validateField path value old).toOption = some normal := by
      rw [toOption_validateField holdNone, hagrees.values hscalar path value,
        ← toOption_validateField hnone, h]
      rfl
    have hid : restrictTo old.shape = id := by
      rw [holdNone]
      rfl
    rw [hid, Option.map_id]
    cases hold : validateField path value old with
    | error error =>
      rw [hold] at hsame
      cases hsame
    | ok found =>
      rw [hold] at hsame
      exact congrArg _ (Option.some.inj hsame)
  · have hcheck : ∀ place given found, checkObject fields place given = .ok found →
        checkObject below place given = .ok (found.restrict below) :=
      fun _ _ _ => checkObject_of_extends (hbelow fields hshape) hfields (hinner fields hshape)
    have hobject : field.type.isObjectLike = true := by
      rw [hfits, hshape]
      rfl
    have holdType := FieldType.eq_of_isSameKind hagrees.kind hobject
    rw [holdShape]
    cases htype : field.type with
    | scalar _ | choice _ =>
      rw [htype] at hobject
      cases hobject
    | object =>
      obtain ⟨given, found, hgiven, hfound, rfl⟩ := (validateField_object_eq_ok_iff htype hshape).mp h
      exact (validateField_object_eq_ok_iff (holdType.trans htype) holdShape).mpr
        ⟨given, _, hgiven, hcheck _ _ _ hfound, rfl⟩
    | objectArray =>
      obtain ⟨data, checked, hdata, hchecked, rfl⟩ := (validateField_array_eq_ok_iff htype hshape).mp h
      have hitems := items_of_items hcheck hchecked
      rw [← Data.restrictItems_eq_map] at hitems
      exact (validateField_array_eq_ok_iff (holdType.trans htype) holdShape).mpr ⟨data, _, hdata, hitems, rfl⟩

/-- So is the value under its name, which may be missing for both or for none of them. -/
theorem validateEntry_of_extends {field old : Field}
    (hbelow : ∀ fields, field.shape = some fields → RestrictsFrom added fields)
    (hextends : FieldExtends Field.Agrees added old field) (hformed : field.WellFormed)
    {path : FieldPath} {input : Data} {name : String} {normal : Option Data}
    (h : validateEntry path input name field = .ok normal) :
    validateEntry path input name old = .ok (normal.map (restrictTo old.shape)) := by
  have hagrees := (Schema.fieldExtends_iff.mp hextends).1
  have homit : mayOmit old = mayOmit field := by
    rw [mayOmit, mayOmit, hagrees.required, FieldType.isObjectLike_of_isSameKind hagrees.kind]
  rw [validateEntry, homit]
  rw [validateEntry] at h
  split at h
  · rename_i homitted
    obtain rfl := Except.ok.inj h
    exact if_pos homitted
  · rename_i hgiven
    rw [if_neg hgiven]
    exact validateField_of_extends hbelow hextends hformed h

/-- Members that are valid under fields are valid under all that they extend, if this is so below
each of them. -/
theorem validateFields_of_extends {fields : List (String × Field)}
    (hbelow : ∀ name field below, (name, field) ∈ fields → field.shape = some below →
      RestrictsFrom added below) :
    RestrictsFrom added fields := by
  induction fields with
  | nil =>
    intro base path input members hextends _ h
    obtain rfl : base = [] := hextends
    obtain rfl := Except.ok.inj h
    rfl
  | cons head rest ih =>
    obtain ⟨name, field⟩ := head
    intro base path input members hextends hformed h
    obtain ⟨hname, hfield, hrest⟩ := hformed
    have ih := ih fun other found below hmem => hbelow other found below (List.mem_cons_of_mem _ hmem)
    have hkeys : ∀ others, validateFields path input rest = .ok others → name ∉ others.map (·.1) :=
      fun others hothers hmem => hname ((keys_of_validateFields hothers).subset hmem)
    obtain ⟨normal, checked, hnormal, hchecked, rfl⟩ := validateFields_cons_eq_ok_iff.mp h
    rcases hextends with ⟨old, others, rfl, hold, hothers⟩ | ⟨-, hextends⟩
    · have hvalue := validateEntry_of_extends (hbelow name field · List.mem_cons_self) hold hfield hnormal
      have hfirst : Schema.find? name ((name, old) :: others) = some old := if_pos rfl
      have hskip : restrictMembers ((name, old) :: others) checked = restrictMembers others checked :=
        Data.restrictMembers_cons_left (hkeys checked hchecked) old
      refine validateFields_cons_eq_ok_iff.mpr ⟨_, _, hvalue,
        ih others path input checked hothers hrest hchecked, ?_⟩
      cases normal with
      | none => exact hskip
      | some normal =>
        show restrictMembers ((name, old) :: others) ((name, normal) :: checked) = _
        rw [Data.restrictMembers_cons_of_declared hfirst, hskip]
        rfl
    · have hnew : base.find? name = none := by
        refine Schema.find?_eq_none_iff.mpr fun hmem => hname ?_
        exact (Schema.names_sublist_of_fieldsExtend hextends).subset hmem
      have hdrop : restrictMembers base ((normal.map fun normal => (name, normal)).toList ++ checked) =
          restrictMembers base checked := by
        cases normal with
        | none => rfl
        | some normal => exact Data.restrictMembers_cons_of_new hnew normal checked
      rw [hdrop]
      exact ih base path input checked hextends hrest hchecked

/-- **Extensions accept less.** Members that are valid under fields are valid under all that they
extend, and of the normal forms the declared part is left. -/
theorem restrictsFrom (fields : List (String × Field)) : RestrictsFrom added fields :=
  Schema.induction_on_shapes (fun _ => validateFields_of_extends) fields

end Validation

namespace Schema

variable {base layer extended : Schema} {added : Field → Prop} {input normal : Data}

/-- A layer that keeps every field that both declare extends the schema with any others. -/
theorem fieldsExtend_merge_of_kept (hbase : WellFormed base) (hlayer : WellFormed layer)
    (hkept : ∀ old field, (some old, field) ∈ base.overlay layer → old.KeptBy field) :
    FieldsExtend Field.Agrees (fun _ => True) base (base.merge layer) := by
  refine fieldsExtend_merge Field.agrees_refl layer hbase hlayer (fun old field hpair => ?_)
    fun _ _ => trivial
  have hfield := hkept old field hpair
  exact ⟨FieldType.isObjectLike_of_isSameKind hfield.kind, hfield.agrees⟩

/-- Data that is valid under an extension is valid under the schema; its normal form is what the
schema declares of that under the extension. -/
theorem validate_of_fieldsExtend (hextends : FieldsExtend Field.Agrees added base extended)
    (hformed : WellFormed extended) (h : extended.validate input = .ok normal) :
    base.validate input = .ok (normal.restrict base) := by
  rw [validate] at h ⊢
  split at h
  · cases h
  · rename_i hobject
    rw [if_neg hobject]
    exact Validation.checkObject_of_extends (Validation.restrictsFrom extended) hextends hformed h

/-- **Acceptance only shrinks.** Data that is valid under a layer over a schema is valid under the
schema, if every field that both declare is kept by the layer. -/
theorem validate_of_validate_merge (hbase : WellFormed base) (hlayer : WellFormed layer)
    (hkept : ∀ old field, (some old, field) ∈ base.overlay layer → old.KeptBy field)
    (h : (base.merge layer).validate input = .ok normal) :
    base.validate input = .ok (normal.restrict base) := by
  have hleaves := not_leavesShape_of_isSameKind fun old field hpair => (hkept old field hpair).kind
  exact validate_of_fieldsExtend (fieldsExtend_merge_of_kept hbase hlayer hkept)
    ((wellFormed_merge layer hbase hlayer).mpr hleaves) h

end Schema

end InvoiceXml
