import InvoiceXml.Proofs.Validation
import InvoiceXml.Proofs.Validator

/-!
# Validating twice

Data in normal form is valid and stays as it is. A second validation finds each value as the first
one left it: scalars are let pass by stable validators, missing objects and arrays have been filled
in, and what has been left out may be left out again.

* `validateField_of_validateField`, `validateEntry_of_validateEntry`: so it is with the value of a
  field, and of a name;
* **`validate_of_validate`**: and so with whole data, by induction on shapes.
-/

namespace InvoiceXml

/-- Whether a field is checked by a validator that settles its value, and declares no name twice below it. -/
structure Field.Settles (_names : List String) (field : Field) : Prop where
  validator : ∀ validator, field.type = .scalar validator → validator.Settles
  distinct : ∀ fields, field.shape = some fields → (fields.map (·.1)).Nodup

namespace Validation

open Assembly (itemData)
open Data (membersOf member?)

variable {path : FieldPath} {input normal : Data} {fields : List (String × Field)} {name : String}
  {field : Field}
variable {names : List String} {value out : Option Data}

/-- Whether an object that has been checked against fields is checked to itself. -/
def Settled (fields : List (String × Field)) : Prop :=
  ∀ path input normal, checkObject fields path input = .ok normal →
    checkObject fields path normal = .ok normal

theorem exists_obj_of_checkObject (h : checkObject fields path input = .ok normal) :
    ∃ members, normal = .obj members := by
  obtain ⟨members, -, rfl⟩ := checkObject_eq_ok_iff.mp h
  exact ⟨_, rfl⟩

theorem items_of_checked_items (hfields : Settled fields) {number : Nat} {data checked : List Data}
    (h : items (checkObject fields) path number data = .ok checked) :
    items (checkObject fields) path number checked = .ok checked := by
  obtain ⟨hlength, hall⟩ := items_eq_ok_iff.mp h
  refine items_eq_ok_iff.mpr ⟨rfl, fun i item normal hitem hnormal => ?_⟩
  obtain rfl := Option.some.inj (hitem.symm.trans hnormal)
  obtain ⟨hi, -⟩ := List.getElem?_eq_some_iff.mp hitem
  have hgiven : data[i]? = some data[i] := List.getElem?_eq_getElem (hlength ▸ hi)
  have hcheck := (hall i _ item hgiven hitem).2
  obtain ⟨members, rfl⟩ := exists_obj_of_checkObject hcheck
  exact ⟨rfl, hfields _ _ _ hcheck⟩

/-- **What a field is validated to.** It is not null, and the field is validated to it again. -/
theorem validateField_of_validateField (hfield : field.Settles names)
    (hbelow : ∀ below, field.shape = some below → Settled below)
    (h : validateField path value field = .ok out) :
    (∀ normal, out = some normal → normal.isNull = false) ∧ validateField path out field = .ok out := by
  have hscalar := fun hkind : field.type.isObjectLike = false => shape_eq_none_of_validateField hkind h
  by_cases hbare : field.type.isObjectLike = true ∧ field.shape = none
  · obtain rfl := Except.ok.inj (h.symm.trans (validateField_bare path value hbare.1 hbare.2))
    exact ⟨nofun, validateField_bare path none hbare.1 hbare.2⟩
  have hobject : field.type.isObjectLike = true → ∃ below, field.shape = some below := fun hkind =>
    Option.ne_none_iff_exists'.mp fun hshape => hbare ⟨hkind, hshape⟩
  cases htype : field.type with
  | scalar validator =>
    have hshape := hscalar (by rw [htype]; rfl)
    have hstable := (hfield.validator validator htype).isStable
    obtain ⟨normal, hcheck, rfl⟩ := (validateField_scalar_eq_ok_iff htype hshape).mp h
    refine ⟨?_, (validateField_scalar_eq_ok_iff htype hshape).mpr ⟨normal, hstable.fixed _ _ hcheck, rfl⟩⟩
    rintro _ ⟨⟩
    exact hstable.nonNull _ _ hcheck
  | choice members =>
    have hshape := hscalar (by rw [htype]; rfl)
    obtain ⟨text, hmember, -, rfl⟩ := (validateField_choice_eq_ok_iff htype hshape).mp h
    refine ⟨?_, (validateField_choice_eq_ok_iff htype hshape).mpr ⟨text, hmember, rfl, rfl⟩⟩
    rintro _ ⟨⟩
    rfl
  | object =>
    obtain ⟨below, hshape⟩ := hobject (by rw [htype]; rfl)
    obtain ⟨given, normal, -, hcheck, rfl⟩ := (validateField_object_eq_ok_iff htype hshape).mp h
    have hagain := hbelow below hshape _ _ _ hcheck
    obtain ⟨members, rfl⟩ := exists_obj_of_checkObject hcheck
    refine ⟨?_, (validateField_object_eq_ok_iff htype hshape).mpr ⟨members, _, rfl, hagain, rfl⟩⟩
    rintro _ ⟨⟩
    rfl
  | objectArray =>
    obtain ⟨below, hshape⟩ := hobject (by rw [htype]; rfl)
    obtain ⟨data, checked, -, hchecked, rfl⟩ := (validateField_array_eq_ok_iff htype hshape).mp h
    have hagain := items_of_checked_items (hbelow below hshape) hchecked
    refine ⟨?_, (validateField_array_eq_ok_iff htype hshape).mpr ⟨checked, checked, rfl, hagain, rfl⟩⟩
    rintro _ ⟨⟩
    rfl

/-- What is validated to the value that is found under a name is validated to it again. -/
theorem validateEntry_of_validateEntry (hfield : field.Settles names)
    (hbelow : ∀ below, field.shape = some below → Settled below) {members : List (String × Data)}
    (h : validateEntry path input name field = .ok (member? name members)) :
    validateEntry path (.obj members) name field = .ok (member? name members) := by
  by_cases homit : (input.present? name).isNone = true ∧ mayOmit field = true
  · rw [validateEntry, if_pos homit] at h
    have hnone : member? name members = none := (Except.ok.inj h).symm
    have hmissing : (Data.obj members).present? name = none := by rw [Data.present?, Data.get?, hnone]; rfl
    rw [validateEntry, hmissing, if_pos ⟨rfl, homit.2⟩, hnone]
  · rw [validateEntry, if_neg homit] at h
    obtain ⟨hnonNull, hagain⟩ := validateField_of_validateField hfield hbelow h
    have hpresent : (Data.obj members).present? name = member? name members := by
      rw [Data.present?, Data.get?]
      cases hvalue : member? name members with
      | none => rfl
      | some normal => simp [Option.filter, hnonNull normal hvalue]
    rw [validateEntry, hpresent]
    split
    · rename_i hmissing
      rw [Option.isNone_iff_eq_none.mp hmissing.1]
    · exact hagain

/-- Objects under fields that settle are checked to themselves again. -/
theorem settled : ∀ (fields : List (String × Field)) {names : List String}, (fields.map (·.1)).Nodup →
    Schema.FieldsHold Field.Settles names fields → Settled fields := by
  refine Schema.induction_on_shapes fun fields ih => ?_
  intro names hdistinct hfields path input normal h
  obtain ⟨members, hmembers, rfl⟩ := checkObject_eq_ok_iff.mp h
  obtain ⟨hkeys, hentries⟩ := (validateFields_eq_ok_iff hdistinct).mp hmembers
  rw [Data.membersOf_of_nodup (hkeys.nodup hdistinct)]
  refine checkObject_eq_ok_iff.mpr ⟨members, ?_, by rw [Data.membersOf_of_nodup (hkeys.nodup hdistinct)]⟩
  refine (validateFields_eq_ok_iff hdistinct).mpr ⟨hkeys, fun name field hmem => ?_⟩
  obtain ⟨hfield, hshapes⟩ :=
    Schema.fieldHolds_iff_shape.mp (Schema.fieldsHold_iff_mem.mp hfields name field hmem)
  exact validateEntry_of_validateEntry hfield (fun below hshape =>
    ih name field below hmem hshape (hfield.distinct below hshape) (hshapes below hshape))
    (hentries name field hmem)

end Validation

namespace Schema

open Validation

variable {schema : Schema} {input normal : Data}

/-- **Validating twice.** Where no name is declared twice at any depth and all validators settle
what they check, data in normal form is valid and its own normal form. -/
theorem validate_of_validate (hdistinct : (schema.map (·.1)).Nodup)
    (hfields : FieldsHold Field.Settles [] schema) (h : schema.validate input = .ok normal) :
    schema.validate normal = .ok normal := by
  obtain ⟨-, hcheck⟩ := validate_eq_ok_iff.mp h
  obtain ⟨members, rfl⟩ := exists_obj_of_checkObject hcheck
  exact validate_eq_ok_iff.mpr ⟨rfl, settled schema hdistinct hfields _ _ _ hcheck⟩

theorem fieldHolds_settles_of_scalar {names : List String} {field : Field} {validator : Validator}
    (hsettles : validator.Settles) (htype : field.type = .scalar validator) (hshape : field.shape = none) :
    FieldHolds Field.Settles names field := by
  refine fieldHolds_iff_shape.mpr ⟨⟨fun other hother => ?_, by simp [hshape]⟩, by simp [hshape]⟩
  obtain rfl := FieldType.scalar.inj (htype.symm.trans hother)
  exact hsettles

/-- An amount is filled up, a unit gets its canonical spelling, and an object without a shape is left out. -/
theorem validate_of_validate_lines :
    let units : CodeList := { CodeList.ofCodes "unit" ["C62", "HUR"] with caseSensitive := false }
    let line : Schema :=
      [("unit", .ofValidator (.code "unit" units)), ("taxed", .ofValidator (.boolean "boolean"))]
    let schema : Schema := [
      ("id", .ofValidator (.text "string")), ("total", .ofValidator (.decimal "amount" (some 2))),
      ("kind", .optional (.ofChoice ["380"])), ("lines", .ofArray line), ("notes", { type := .object })]
    let input : Data := .obj [
      ("total", .str " 7.5 "),
      ("lines", .arr [.obj [("unit", .str "hur"), ("taxed", .str "True")]]), ("id", .str "1")]
    let normal : Data := .obj [
      ("id", .str "1"), ("total", .str "7.50"),
      ("lines", .arr [.obj [("unit", .str "HUR"), ("taxed", .bool true)]])]
    (schema.map (·.1)).Nodup ∧ FieldsHold Field.Settles [] schema ∧ schema.validate input = .ok normal ∧
      schema.validate normal = .ok normal := by
  intro units line schema input normal
  have hdistinct : (schema.map (·.1)).Nodup := by decide
  have hline : FieldsHold Field.Settles ["lines"] line :=
    ⟨fieldHolds_settles_of_scalar (.code _ _) rfl rfl,
      fieldHolds_settles_of_scalar (.boolean _) rfl rfl, trivial⟩
  have hlines : Field.Settles ["lines"] (.ofArray line) := ⟨nofun, by rintro _ ⟨⟩; decide⟩
  have hfields : FieldsHold Field.Settles [] schema :=
    ⟨fieldHolds_settles_of_scalar (.text _ _) rfl rfl, fieldHolds_settles_of_scalar (.decimal _ _) rfl rfl,
      ⟨⟨nofun, nofun⟩, trivial⟩, ⟨hlines, hline⟩, ⟨⟨nofun, nofun⟩, trivial⟩, trivial⟩
  have hvalid : schema.validate input = .ok normal := by rfl
  exact ⟨hdistinct, hfields, hvalid, validate_of_validate hdistinct hfields hvalid⟩

end Schema

end InvoiceXml
