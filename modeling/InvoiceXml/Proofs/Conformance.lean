import InvoiceXml.Proofs.Schema.WellFormed
import InvoiceXml.Proofs.Validation
import InvoiceXml.Validator.Standard

/-!
# What is valid, and its normal form

Which data conforms to a schema (`Schema.Conforms`), and what its normal form is
(`Schema.NormalForm`), said without validating anything: of an object by what it has under the
declared names, of the value of a field by the type of the field.

* `exists_checkObject_iff`: under a well-formed schema an object is valid iff it conforms;
* `checkObject_eq_ok_iff_normalForm`: and validation gives its normal form;
* **`validate_characterized`**: both for whole data.

All is proved by induction on shapes, and for the fields of one shape by the type of each.
-/

namespace InvoiceXml

open Assembly (itemData)

/-- Whether a scalar is checked: it must be given, or it is. -/
def Field.isDue (field : Field) (value : Option Data) : Bool := field.isRequired || value.isSome

/-- Whether a normal form has a member for a field: all objects and arrays have one, and scalars
that are checked. -/
def Field.isKept (field : Field) (value : Option Data) : Bool := field.type.isObjectLike || field.isDue value

/-- The names of the fields for which the normal form of an object has members, in order of declaration. -/
def Schema.keptNames (input : Data) (fields : List (String × Field)) : List String :=
  (fields.filter fun entry => entry.2.isKept (input.present? entry.1)).map (·.1)

mutual

/-- Whether data is an object that has what fields admit under their names. -/
inductive Schema.Conforms : List (String × Field) → Data → Prop
  | object {fields : List (String × Field)} {given : List (String × Data)}
      (values : ∀ name field, (name, field) ∈ fields → field.Admits ((Data.obj given).present? name)) :
      Schema.Conforms fields (.obj given)

/-- Whether a field admits a value, which may be missing. -/
inductive Field.Admits : Field → Option Data → Prop
  | scalar {field : Field} {validator : Validator} {value : Option Data}
      (type : field.type = .scalar validator)
      (accepted : field.isDue value = true → ∃ normal, validator.check (value.getD .null) = .ok normal) :
      field.Admits value
  | choice {field : Field} {members : List String} {value : Option Data} (type : field.type = .choice members)
      (member : field.isDue value = true → ∃ text ∈ members, value = some (.str text)) : field.Admits value
  | missingObject {field : Field} {below : List (String × Field)} (type : field.type = .object)
      (shape : field.shape = some below) (empty : Schema.Conforms below (.obj [])) : field.Admits none
  | object {field : Field} {below : List (String × Field)} {data : Data} (type : field.type = .object)
      (shape : field.shape = some below) (conforms : Schema.Conforms below data) : field.Admits (some data)
  | missingArray {field : Field} {below : List (String × Field)} (type : field.type = .objectArray)
      (shape : field.shape = some below) : field.Admits none
  | array {field : Field} {below : List (String × Field)} {items : List Data}
      (type : field.type = .objectArray) (shape : field.shape = some below)
      (conform : ∀ item ∈ items, Schema.Conforms below (itemData item)) : field.Admits (some (.arr items))

end

mutual

/-- Whether an object is the normal form of another: it has members for the fields that are kept, in
their order, and each is the normal value of its field. -/
inductive Schema.NormalForm : List (String × Field) → Data → Data → Prop
  | object {fields : List (String × Field)} {given members : List (String × Data)}
      (keys : members.map (·.1) = Schema.keptNames (.obj given) fields)
      (values : ∀ name field normal, (name, field) ∈ fields → (name, normal) ∈ members →
        field.NormalValue ((Data.obj given).present? name) normal) :
      Schema.NormalForm fields (.obj given) (.obj members)

/-- Whether data is the normal form of the value of a field, which may be missing. -/
inductive Field.NormalValue : Field → Option Data → Data → Prop
  | scalar {field : Field} {validator : Validator} {value : Option Data} {normal : Data}
      (type : field.type = .scalar validator) (check : validator.check (value.getD .null) = .ok normal) :
      field.NormalValue value normal
  | choice {field : Field} {members : List String} {text : String} (type : field.type = .choice members)
      (member : text ∈ members) : field.NormalValue (some (.str text)) (.str text)
  | object {field : Field} {below : List (String × Field)} {value : Option Data} {normal : Data}
      (type : field.type = .object) (shape : field.shape = some below)
      (normalForm : Schema.NormalForm below (value.getD (.obj [])) normal) : field.NormalValue value normal
  | missingArray {field : Field} {below : List (String × Field)} (type : field.type = .objectArray)
      (shape : field.shape = some below) : field.NormalValue none (.arr [])
  | array {field : Field} {below : List (String × Field)} {items normals : List Data}
      (type : field.type = .objectArray) (shape : field.shape = some below)
      (length : items.length = normals.length)
      (normalForms : ∀ (i : Nat) (item normal : Data), items[i]? = some item → normals[i]? = some normal →
        Schema.NormalForm below (itemData item) normal) : field.NormalValue (some (.arr items)) (.arr normals)

end

namespace Validation

open Data (membersOf member?)
open Schema (Conforms NormalForm WellFormed keptNames)

variable {path : FieldPath} {input : Data} {fields : List (String × Field)} {name : String} {field : Field}
variable {value : Option Data}

theorem isObject_of_conforms (h : Conforms fields input) : isObject input = true := by
  cases h
  rfl

theorem isObject_of_normalForm {normal : Data} (h : NormalForm fields input normal) :
    isObject input = true := by
  cases h
  rfl

/-- A scalar that is missing and need not be given is all that is not kept. -/
theorem isKept_eq_false_iff : field.isKept value = false ↔ value.isNone = true ∧ mayOmit field = true := by
  cases value <;> simp [Field.isKept, Field.isDue, mayOmit, and_comm]

/-! ### Conforming data is valid -/

theorem exists_validateFields_iff :
    (∃ members, validateFields path input fields = .ok members) ↔
      ∀ name field, (name, field) ∈ fields → ∃ normal, validateEntry path input name field = .ok normal := by
  induction fields with
  | nil => simp [validateFields]
  | cons head rest ih =>
    obtain ⟨first, found⟩ := head
    simp only [validateFields_cons_eq_ok_iff]
    constructor
    · rintro ⟨members, normal, others, hnormal, hothers, -⟩ name field hmem
      rcases List.mem_cons.mp hmem with heq | hmem
      · obtain ⟨rfl, rfl⟩ := Prod.mk.inj heq
        exact ⟨normal, hnormal⟩
      · exact ih.mp ⟨others, hothers⟩ name field hmem
    · intro hall
      obtain ⟨normal, hnormal⟩ := hall first found List.mem_cons_self
      obtain ⟨others, hothers⟩ := ih.mpr fun name field hmem => hall name field (List.mem_cons_of_mem _ hmem)
      exact ⟨_, normal, others, hnormal, hothers, rfl⟩

theorem exists_items_iff {check : FieldPath → Data → Except ValidationError Data} {valid : Data → Prop}
    (hcheck : ∀ place item, isObject item = true → ((∃ normal, check place item = .ok normal) ↔ valid item))
    (hobject : ∀ item, valid item → isObject item = true) {number : Nat} {data : List Data} :
    (∃ checked, items check path number data = .ok checked) ↔ ∀ item ∈ data, valid (itemData item) := by
  induction data generalizing number with
  | nil => simp [items]
  | cons item rest ih =>
    simp only [items_cons_eq_ok_iff]
    constructor
    · rintro ⟨checked, hgiven, first, others, hfirst, hothers, -⟩
      exact List.forall_mem_cons.mpr ⟨(hcheck _ _ hgiven).mp ⟨first, hfirst⟩, ih.mp ⟨others, hothers⟩⟩
    · intro hall
      obtain ⟨hitem, hrest⟩ := List.forall_mem_cons.mp hall
      have hgiven := hobject _ hitem
      obtain ⟨first, hfirst⟩ := (hcheck (path.item number) _ hgiven).mpr hitem
      obtain ⟨others, hothers⟩ := ih.mpr hrest
      exact ⟨_, hgiven, first, others, hfirst, hothers, rfl⟩

/-- Whether the objects that are valid under fields are those that conform to them. -/
def AcceptsConforming (fields : List (String × Field)) : Prop :=
  ∀ path input, isObject input = true →
    ((∃ normal, checkObject fields path input = .ok normal) ↔ Conforms fields input)

/-! ### What a field admits, by its type -/

theorem admits_scalar_iff {validator : Validator} (htype : field.type = .scalar validator) :
    field.Admits value ↔
      (field.isDue value = true → ∃ normal, validator.check (value.getD .null) = .ok normal) := by
  constructor
  · intro h
    cases h with
    | scalar type accepted =>
      obtain rfl := FieldType.scalar.inj (htype.symm.trans type)
      exact accepted
    | choice type | missingObject type | object type | missingArray type | array type =>
      cases htype.symm.trans type
  · exact .scalar htype

theorem admits_choice_iff {members : List String} (htype : field.type = .choice members) :
    field.Admits value ↔ (field.isDue value = true → ∃ text ∈ members, value = some (.str text)) := by
  constructor
  · intro h
    cases h with
    | choice type member =>
      obtain rfl := FieldType.choice.inj (htype.symm.trans type)
      exact member
    | scalar type | missingObject type | object type | missingArray type | array type =>
      cases htype.symm.trans type
  · exact .choice htype

/-- A missing object counts as an empty one. -/
theorem admits_object_iff {below : List (String × Field)} (htype : field.type = .object)
    (hshape : field.shape = some below) : field.Admits value ↔ Conforms below (value.getD (.obj [])) := by
  constructor
  · intro h
    cases h with
    | missingObject _ shape conforms | object _ shape conforms =>
      obtain rfl := Option.some.inj (hshape.symm.trans shape)
      exact conforms
    | scalar type | choice type | missingArray type | array type => cases htype.symm.trans type
  · intro h
    cases value with
    | none => exact .missingObject htype hshape h
    | some data => exact .object htype hshape h

/-- A missing array counts as an empty one. -/
theorem admits_array_iff {below : List (String × Field)} (htype : field.type = .objectArray)
    (hshape : field.shape = some below) :
    field.Admits value ↔
      ∃ items, value.getD (.arr []) = .arr items ∧ ∀ item ∈ items, Conforms below (itemData item) := by
  constructor
  · intro h
    cases h with
    | missingArray => exact ⟨[], rfl, by simp⟩
    | array _ shape conform =>
      obtain rfl := Option.some.inj (hshape.symm.trans shape)
      exact ⟨_, rfl, conform⟩
    | scalar type | choice type | missingObject type | object type => cases htype.symm.trans type
  · rintro ⟨items, hitems, hconform⟩
    cases value with
    | none => exact .missingArray htype hshape
    | some data =>
      obtain rfl : data = .arr items := hitems
      exact .array htype hshape hconform

/-! ### Conforming data is valid -/

/-- A value is valid, or may be passed over, iff its field admits it. -/
theorem exists_validateField_iff (path : FieldPath) (hformed : field.WellFormed)
    (hbelow : ∀ below, field.shape = some below → AcceptsConforming below) :
    (field.isKept value = true → ∃ normal, validateField path value field = .ok normal) ↔
      field.Admits value := by
  cases htype : field.type with
  | scalar validator =>
    have hshape := Field.shape_eq_none_of_wellFormed hformed (by rw [htype]; rfl)
    simp [validateField_scalar_eq_ok_iff htype hshape, admits_scalar_iff htype, Field.isKept, htype,
      FieldType.isObjectLike]
  | choice members =>
    have hshape := Field.shape_eq_none_of_wellFormed hformed (by rw [htype]; rfl)
    simp [validateField_choice_eq_ok_iff htype hshape, admits_choice_iff htype, Field.isKept, htype,
      FieldType.isObjectLike]
  | object =>
    obtain ⟨below, hshape, -⟩ := Field.exists_shape_of_wellFormed hformed (by rw [htype]; rfl)
    have hkept : field.isKept value = true := by simp [Field.isKept, htype, FieldType.isObjectLike]
    simp only [hkept, forall_const, validateField_object_eq_ok_iff htype hshape,
      admits_object_iff htype hshape]
    constructor
    · rintro ⟨-, given, normal, hgiven, hnormal, -⟩
      rw [hgiven]
      exact (hbelow below hshape path (.obj given) rfl).mp ⟨normal, hnormal⟩
    · intro hconforms
      have hobject := isObject_of_conforms hconforms
      obtain ⟨normal, hnormal⟩ := (hbelow below hshape path _ hobject).mpr hconforms
      cases hdata : value.getD (.obj []) with
      | null | bool _ | num _ | str _ | arr _ => simp [hdata, isObject] at hobject
      | obj given => exact ⟨_, given, normal, rfl, hdata ▸ hnormal, rfl⟩
  | objectArray =>
    obtain ⟨below, hshape, -⟩ := Field.exists_shape_of_wellFormed hformed (by rw [htype]; rfl)
    have hkept : field.isKept value = true := by simp [Field.isKept, htype, FieldType.isObjectLike]
    have hitems : ∀ {data}, (∃ checked, items (checkObject below) path 0 data = .ok checked) ↔
        ∀ item ∈ data, Conforms below (itemData item) :=
      exists_items_iff (hbelow below hshape) fun item => isObject_of_conforms
    simp only [hkept, forall_const, validateField_array_eq_ok_iff htype hshape, admits_array_iff htype hshape]
    constructor
    · rintro ⟨-, data, checked, hdata, hchecked, -⟩
      exact ⟨data, hdata, hitems.mp ⟨checked, hchecked⟩⟩
    · rintro ⟨data, hdata, hconform⟩
      obtain ⟨checked, hchecked⟩ := hitems.mpr hconform
      exact ⟨_, data, checked, hdata, hchecked, rfl⟩

theorem validateEntry_of_isKept (h : field.isKept (input.present? name) = true) :
    validateEntry path input name field = validateField (path.field name) (input.present? name) field := by
  rw [validateEntry, if_neg fun homit => Bool.false_ne_true ((isKept_eq_false_iff.mpr homit).symm.trans h)]

theorem validateEntry_of_not_isKept (h : field.isKept (input.present? name) = false) :
    validateEntry path input name field = .ok none := by
  rw [validateEntry, if_pos (isKept_eq_false_iff.mp h)]

theorem exists_validateEntry_iff (hformed : field.WellFormed)
    (hbelow : ∀ below, field.shape = some below → AcceptsConforming below) :
    (∃ normal, validateEntry path input name field = .ok normal) ↔ field.Admits (input.present? name) := by
  rw [← exists_validateField_iff (path.field name) hformed hbelow]
  cases hkept : field.isKept (input.present? name) with
  | false => simp [validateEntry_of_not_isKept hkept]
  | true =>
    rw [validateEntry_of_isKept hkept]
    simp only [forall_const]

theorem conforms_obj_iff {given : List (String × Data)} :
    Conforms fields (.obj given) ↔
      ∀ name field, (name, field) ∈ fields → field.Admits ((Data.obj given).present? name) :=
  ⟨fun h => by cases h; assumption, .object⟩

/-- Under a well-formed schema the objects that are valid are those that conform. -/
theorem exists_checkObject_iff : ∀ fields, WellFormed fields → AcceptsConforming fields := by
  refine Schema.induction_on_shapes fun fields ih => ?_
  intro hformed path input hobject
  cases input with
  | null | bool _ | num _ | str _ | arr _ => cases hobject
  | obj given =>
    have hentries : (∃ members, validateFields path (.obj given) fields = .ok members) ↔
        Conforms fields (.obj given) := by
      rw [exists_validateFields_iff, conforms_obj_iff]
      refine forall₂_congr fun name field => forall_congr' fun hmem => ?_
      have hfield := hformed.field hmem
      exact exists_validateEntry_iff hfield fun below hshape =>
        ih name field below hmem hshape ((Field.wellFormed_iff.mp hfield).2 below hshape)
    rw [← hentries]
    simp [checkObject_eq_ok_iff]

/-! ### What a normal value is, by the type of its field -/

section NormalValue

variable {normal : Data}

theorem normalValue_scalar_iff {validator : Validator} (htype : field.type = .scalar validator) :
    field.NormalValue value normal ↔ validator.check (value.getD .null) = .ok normal := by
  constructor
  · intro h
    cases h with
    | scalar type check =>
      obtain rfl := FieldType.scalar.inj (htype.symm.trans type)
      exact check
    | choice type | object type | missingArray type | array type => cases htype.symm.trans type
  · exact .scalar htype

theorem normalValue_choice_iff {members : List String} (htype : field.type = .choice members) :
    field.NormalValue value normal ↔ ∃ text ∈ members, value = some (.str text) ∧ normal = .str text := by
  constructor
  · intro h
    cases h with
    | choice type member =>
      obtain rfl := FieldType.choice.inj (htype.symm.trans type)
      exact ⟨_, member, rfl, rfl⟩
    | scalar type | object type | missingArray type | array type => cases htype.symm.trans type
  · rintro ⟨text, hmember, rfl, rfl⟩
    exact .choice htype hmember

theorem normalValue_object_iff {below : List (String × Field)} (htype : field.type = .object)
    (hshape : field.shape = some below) :
    field.NormalValue value normal ↔ NormalForm below (value.getD (.obj [])) normal := by
  constructor
  · intro h
    cases h with
    | object _ shape normalForm =>
      obtain rfl := Option.some.inj (hshape.symm.trans shape)
      exact normalForm
    | scalar type | choice type | missingArray type | array type => cases htype.symm.trans type
  · exact .object htype hshape

theorem normalValue_array_iff {below : List (String × Field)} (htype : field.type = .objectArray)
    (hshape : field.shape = some below) :
    field.NormalValue value normal ↔
      ∃ items normals, value.getD (.arr []) = .arr items ∧ normal = .arr normals ∧
        items.length = normals.length ∧
        ∀ (i : Nat) (item normal : Data), items[i]? = some item → normals[i]? = some normal →
          NormalForm below (itemData item) normal := by
  constructor
  · intro h
    cases h with
    | missingArray => exact ⟨[], [], rfl, rfl, rfl, by simp⟩
    | array _ shape length normalForms =>
      obtain rfl := Option.some.inj (hshape.symm.trans shape)
      exact ⟨_, _, rfl, rfl, length, normalForms⟩
    | scalar type | choice type | object type => cases htype.symm.trans type
  · rintro ⟨items, normals, hitems, rfl, hlength, hnormals⟩
    cases value with
    | none =>
      obtain rfl : items = [] := (Data.arr.inj hitems).symm
      obtain rfl := List.length_eq_zero_iff.mp hlength.symm
      exact .missingArray htype hshape
    | some data =>
      obtain rfl : data = .arr items := hitems
      exact .array htype hshape hlength hnormals

end NormalValue

/-! ### Validation gives the normal form -/

/-- Whether the normal forms of objects under fields are what they are checked to. -/
def GivesNormalForms (fields : List (String × Field)) : Prop :=
  ∀ path given normal, checkObject fields path (.obj given) = .ok normal ↔
    NormalForm fields (.obj given) normal

/-- The items of an array are checked to their normal forms. -/
theorem items_eq_ok_iff_normalForm (hfields : GivesNormalForms fields) {number : Nat}
    {data checked : List Data} :
    items (checkObject fields) path number data = .ok checked ↔
      data.length = checked.length ∧ ∀ (i : Nat) (item normal : Data), data[i]? = some item →
        checked[i]? = some normal → NormalForm fields (itemData item) normal := by
  rw [items_eq_ok_iff]
  refine and_congr_right fun _ => forall₃_congr fun i item normal => forall₂_congr fun _ _ => ?_
  cases hitem : itemData item with
  | null | bool _ | num _ | str _ | arr _ =>
    exact iff_of_false (fun h => Bool.false_ne_true h.1) fun h =>
      Bool.false_ne_true (isObject_of_normalForm h)
  | obj given => simpa [isObject] using hfields _ given normal

/-- What a field with a value is validated to is the normal value. -/
theorem validateField_eq_ok_iff (hformed : field.WellFormed)
    (hbelow : ∀ below, field.shape = some below → GivesNormalForms below) {out : Option Data} :
    validateField path value field = .ok out ↔ ∃ normal, out = some normal ∧
      field.NormalValue value normal := by
  cases htype : field.type with
  | scalar validator =>
    have hshape := Field.shape_eq_none_of_wellFormed hformed (by rw [htype]; rfl)
    simp only [validateField_scalar_eq_ok_iff htype hshape, normalValue_scalar_iff htype, and_comm]
  | choice members =>
    have hshape := Field.shape_eq_none_of_wellFormed hformed (by rw [htype]; rfl)
    simp only [validateField_choice_eq_ok_iff htype hshape, normalValue_choice_iff htype]
    constructor
    · rintro ⟨text, hmember, hvalue, hout⟩
      exact ⟨_, hout, text, hmember, hvalue, rfl⟩
    · rintro ⟨_, hout, text, hmember, hvalue, rfl⟩
      exact ⟨text, hmember, hvalue, hout⟩
  | object =>
    obtain ⟨below, hshape, -⟩ := Field.exists_shape_of_wellFormed hformed (by rw [htype]; rfl)
    simp only [validateField_object_eq_ok_iff htype hshape, normalValue_object_iff htype hshape]
    constructor
    · rintro ⟨given, normal, hgiven, hnormal, hout⟩
      exact ⟨normal, hout, hgiven ▸ (hbelow below hshape path given normal).mp hnormal⟩
    · rintro ⟨normal, hout, hnormal⟩
      cases hdata : value.getD (.obj []) with
      | null | bool _ | num _ | str _ | arr _ => cases hdata ▸ isObject_of_normalForm hnormal
      | obj given =>
        exact ⟨given, normal, rfl, (hbelow below hshape path given normal).mpr (hdata ▸ hnormal), hout⟩
  | objectArray =>
    obtain ⟨below, hshape, -⟩ := Field.exists_shape_of_wellFormed hformed (by rw [htype]; rfl)
    simp only [validateField_array_eq_ok_iff htype hshape, normalValue_array_iff htype hshape,
      items_eq_ok_iff_normalForm (hbelow below hshape)]
    constructor
    · rintro ⟨data, checked, hdata, hchecked, hout⟩
      exact ⟨_, hout, data, checked, hdata, rfl, hchecked⟩
    · rintro ⟨_, hout, data, checked, hdata, rfl, hchecked⟩
      exact ⟨data, checked, hdata, hchecked, hout⟩

theorem validateEntry_eq_ok_iff (hformed : field.WellFormed)
    (hbelow : ∀ below, field.shape = some below → GivesNormalForms below) {out : Option Data} :
    validateEntry path input name field = .ok out ↔
      out.isSome = field.isKept (input.present? name) ∧
        ∀ normal, out = some normal → field.NormalValue (input.present? name) normal := by
  cases hkept : field.isKept (input.present? name) with
  | false =>
    rw [validateEntry_of_not_isKept hkept]
    cases out <;> simp
  | true =>
    rw [validateEntry_of_isKept hkept, validateField_eq_ok_iff hformed hbelow]
    cases out <;> simp

theorem keptNames_sublist (input : Data) (fields : List (String × Field)) :
    (keptNames input fields).Sublist (fields.map (·.1)) :=
  List.filter_sublist.map _

theorem mem_keptNames_iff (hdistinct : (fields.map (·.1)).Nodup) (hmem : (name, field) ∈ fields) :
    name ∈ keptNames input fields ↔ field.isKept (input.present? name) = true := by
  simp only [keptNames, List.mem_map, List.mem_filter, Prod.exists]
  constructor
  · rintro ⟨other, found, ⟨hfound, hkept⟩, rfl⟩
    have heq :=
      (Schema.find?_eq_some_of_mem hdistinct hmem).symm.trans (Schema.find?_eq_some_of_mem hdistinct hfound)
    exact Option.some.inj heq ▸ hkept
  · intro hkept
    exact ⟨name, field, ⟨hmem, hkept⟩, rfl⟩

/-- Members have the names that are kept iff they are in order, and there is one where the field is kept. -/
theorem keys_eq_keptNames_iff (hdistinct : (fields.map (·.1)).Nodup) {members : List (String × Data)} :
    members.map (·.1) = keptNames input fields ↔
      (members.map (·.1)).Sublist (fields.map (·.1)) ∧ ∀ name field, (name, field) ∈ fields →
        (member? name members).isSome = field.isKept (input.present? name) := by
  constructor
  · intro hkeys
    refine ⟨hkeys ▸ keptNames_sublist input fields, fun name field hmem => ?_⟩
    rw [Bool.eq_iff_iff, Data.isSome_member?_iff, hkeys, mem_keptNames_iff hdistinct hmem]
  · rintro ⟨hsublist, hsome⟩
    have hkept := keptNames_sublist input fields
    refine (hdistinct.perm_iff_eq_of_sublist hsublist hkept).mp ?_
    rw [List.perm_ext_iff_of_nodup (hsublist.nodup hdistinct) (hkept.nodup hdistinct)]
    intro name
    have hdeclared : name ∈ fields.map (·.1) →
        (name ∈ members.map (·.1) ↔ name ∈ keptNames input fields) := by
      intro hname
      obtain ⟨⟨_, field⟩, hmem, rfl⟩ := List.mem_map.mp hname
      rw [← Data.isSome_member?_iff, hsome _ field hmem, mem_keptNames_iff hdistinct hmem]
    exact ⟨fun h => (hdeclared (hsublist.subset h)).mp h, fun h => (hdeclared (hkept.subset h)).mpr h⟩

/-- The members of a valid object are the normal values of the fields that are kept. -/
theorem validateFields_eq_ok_iff_normalValue (path : FieldPath) (hformed : WellFormed fields)
    (hbelow : ∀ name field below, (name, field) ∈ fields → field.shape = some below → GivesNormalForms below)
    {members : List (String × Data)} :
    validateFields path input fields = .ok members ↔
      members.map (·.1) = keptNames input fields ∧
        ∀ name field normal, (name, field) ∈ fields → (name, normal) ∈ members →
          field.NormalValue (input.present? name) normal := by
  have hdistinct := hformed.distinct
  have hentry : ∀ {name field}, (name, field) ∈ fields →
      (validateEntry path input name field = .ok (member? name members) ↔
        (member? name members).isSome = field.isKept (input.present? name) ∧
          ∀ normal, member? name members = some normal → field.NormalValue (input.present? name) normal) :=
    fun {name field} hmem => validateEntry_eq_ok_iff (hformed.field hmem) fun below =>
      hbelow name field below hmem
  rw [validateFields_eq_ok_iff hdistinct, keys_eq_keptNames_iff hdistinct, and_assoc]
  refine and_congr_right fun hsublist => ?_
  have hkeys := hsublist.nodup hdistinct
  constructor
  · intro hentries
    refine ⟨fun name field hmem => ((hentry hmem).mp (hentries name field hmem)).1, ?_⟩
    intro name field normal hmem hnormal
    exact ((hentry hmem).mp (hentries name field hmem)).2 normal
      ((Data.member?_eq_some_iff hkeys).mpr hnormal)
  · rintro ⟨hsome, hvalues⟩ name field hmem
    exact (hentry hmem).mpr ⟨hsome name field hmem, fun normal hnormal =>
      hvalues name field normal hmem ((Data.member?_eq_some_iff hkeys).mp hnormal)⟩

theorem normalForm_obj_iff {given : List (String × Data)} {normal : Data} :
    NormalForm fields (.obj given) normal ↔
      ∃ members, normal = .obj members ∧ members.map (·.1) = keptNames (.obj given) fields ∧
        ∀ name field normal, (name, field) ∈ fields → (name, normal) ∈ members →
          field.NormalValue ((Data.obj given).present? name) normal := by
  constructor
  · intro h
    cases h with
    | object keys values => exact ⟨_, rfl, keys, values⟩
  · rintro ⟨members, rfl, keys, values⟩
    exact .object keys values

/-- Under a well-formed schema an object is checked to its normal form. -/
theorem checkObject_eq_ok_iff_normalForm : ∀ fields, WellFormed fields → GivesNormalForms fields := by
  refine Schema.induction_on_shapes fun fields ih => ?_
  intro hformed path given normal
  have hbelow : ∀ name field below, (name, field) ∈ fields → field.shape = some below →
      GivesNormalForms below :=
    fun name field below hmem hshape =>
      ih name field below hmem hshape ((Field.wellFormed_iff.mp (hformed.field hmem)).2 below hshape)
  rw [checkObject_eq_ok_iff, normalForm_obj_iff]
  refine exists_congr fun members => ?_
  rw [← validateFields_eq_ok_iff_normalValue path hformed hbelow, and_comm]
  refine and_congr_left fun hmembers => ?_
  rw [Data.membersOf_of_nodup ((keys_of_validateFields hmembers).nodup hformed.distinct)]

end Validation

namespace Schema

open Validation

variable {schema : Schema} {input normal : Data}

/-- **What is valid, and what validation gives.** Under a well-formed schema the data is valid iff
it conforms, and it is validated to its normal form. -/
theorem validate_characterized (hformed : WellFormed schema) (input : Data) :
    ((∃ normal, schema.validate input = .ok normal) ↔ Conforms schema input) ∧
      ∀ normal, schema.validate input = .ok normal ↔ NormalForm schema input normal := by
  constructor
  · simp only [validate_eq_ok_iff, exists_and_left]
    rw [and_congr_right fun hobject => exists_checkObject_iff schema hformed [] input hobject]
    exact ⟨fun h => h.2, fun h => ⟨isObject_of_conforms h, h⟩⟩
  · intro normal
    rw [validate_eq_ok_iff]
    cases input with
    | null | bool _ | num _ | str _ | arr _ =>
      exact iff_of_false (fun h => Bool.false_ne_true h.1) fun h =>
        Bool.false_ne_true (isObject_of_normalForm h)
    | obj given => simpa [isObject] using checkObject_eq_ok_iff_normalForm schema hformed [] given normal

/-- An object that leaves out what it may, has more than is declared, and an empty item. -/
theorem validate_characterized_lines :
    let schema : Schema := [
      ("kind", .ofChoice ["380", "381"]), ("paid", .optional (.ofValidator (.boolean "boolean"))),
      ("lines", .ofArray [("taxed", .optional (.ofValidator (.boolean "boolean")))]), ("buyer", .ofObject [])]
    let lines : Data := .arr [.null, .obj [("taxed", .str "TRUE")]]
    let input : Data :=
      .obj [("lines", lines), ("note", .str "urgent"), ("kind", .str "381"), ("paid", .null)]
    let normal : Data := .obj [
      ("kind", .str "381"), ("lines", .arr [.obj [], .obj [("taxed", .bool true)]]), ("buyer", .obj [])]
    WellFormed schema ∧ Conforms schema input ∧ NormalForm schema input normal := by
  intro schema lines input normal
  have hformed : WellFormed schema := by decide +kernel
  have hvalid : schema.validate input = .ok normal := by rfl
  obtain ⟨hconforms, hnormal⟩ := validate_characterized hformed input
  exact ⟨hformed, hconforms.mp ⟨normal, hvalid⟩, (hnormal normal).mp hvalid⟩

end Schema

end InvoiceXml
