import InvoiceXml.Assembly.Plan
import InvoiceXml.Proofs.Schema.Composition
import InvoiceXml.Validation
import Mathlib.Data.List.Forall2

/-!
# Data in normal form

What validation leaves of a field, by its type (`validateField_scalar_eq_ok_iff` and the like), of
the items of an array (`items_eq_ok_iff`), and of an object under fields (`Normalizes`), said of one
field at a time. Where no name is declared twice, the value of each field can be found under its
name:

* **`validateFields_eq_ok_iff`**: it is the value that the field validates to, or missing because it
  may be;
* **`Normalizes.object`**: of an object it is the normal form of the value, or of an empty object;
* **`Normalizes.array`**: of an array it is an array of the normal forms of the items, in their
  order;
* `Normalizes.scalar` and `Normalizes.choice`: of a scalar it is what its validator gives, of a
  choice the text.
-/

namespace InvoiceXml

namespace Data

theorem putMember_of_not_mem {key : String} {members : List (String × Data)} (h : key ∉ members.map (·.1))
    (value : Data) : putMember key value members = members ++ [(key, value)] := by
  induction members with
  | nil => rfl
  | cons head rest ih =>
    obtain ⟨other, old⟩ := head
    rw [List.map_cons, List.mem_cons, not_or] at h
    rw [putMember, if_neg (Ne.symm h.1), ih h.2]
    rfl

/-- Members whose keys are different from each other stay as they are. -/
theorem membersOf_of_nodup {pairs : List (String × Data)} (h : (pairs.map (·.1)).Nodup) :
    membersOf pairs = pairs := by
  have hfold : ∀ (rest before : List (String × Data)), ((before ++ rest).map (·.1)).Nodup →
      rest.foldl (fun members pair => putMember pair.1 pair.2 members) before = before ++ rest := by
    intro rest
    induction rest with
    | nil => intro before _; simp
    | cons pair rest ih =>
      intro before hnodup
      have hnew : pair.1 ∉ before.map (·.1) := by
        rw [List.map_append, List.map_cons, List.nodup_append] at hnodup
        intro hmem
        exact hnodup.2.2 _ hmem _ List.mem_cons_self rfl
      rw [List.foldl_cons, putMember_of_not_mem hnew, ih _ (by simpa using hnodup)]
      simp
  exact hfold pairs [] h

theorem member?_eq_none {key : String} {members : List (String × Data)} (h : key ∉ members.map (·.1)) :
    member? key members = none := by
  induction members with
  | nil => rfl
  | cons head rest ih =>
    rw [List.map_cons, List.mem_cons, not_or] at h
    rw [member?, if_neg (Ne.symm h.1), ih h.2]

theorem isSome_member?_iff {key : String} {members : List (String × Data)} :
    (member? key members).isSome = true ↔ key ∈ members.map (·.1) := by
  induction members with
  | nil => simp [member?]
  | cons head rest ih =>
    obtain ⟨other, old⟩ := head
    rw [member?, List.map_cons, List.mem_cons]
    split
    · rename_i hkey
      simp [hkey]
    · rename_i hkey
      simp [ih, Ne.symm hkey]

/-- Where keys are different from each other, every member is found under its key. -/
theorem member?_eq_some_iff {key : String} {value : Data} {members : List (String × Data)}
    (hdistinct : (members.map (·.1)).Nodup) : member? key members = some value ↔ (key, value) ∈ members := by
  induction members with
  | nil => simp [member?]
  | cons head rest ih =>
    obtain ⟨other, old⟩ := head
    obtain ⟨hnew, hrest⟩ := List.nodup_cons.mp hdistinct
    rw [member?]
    split
    · rename_i hkey
      subst hkey
      have hmissing : (other, value) ∉ rest := fun hmem => hnew (List.mem_map_of_mem (f := (·.1)) hmem)
      simp [hmissing, eq_comm]
    · rename_i hkey
      simp [ih hrest, Ne.symm hkey]

end Data

theorem present?_itemData (item : Data) (name : String) :
    (Assembly.itemData item).present? name = item.present? name := by
  cases item <;> rfl

namespace Validation

open Data (membersOf member?)
open Assembly (itemData itemsOf)

/-! ### The members of a valid object -/

variable {path : FieldPath} {input : Data} {fields : List (String × Field)}

/-- The value of a declared name in normal form, if it has one: a scalar that is missing and need
not be given has none. -/
def validateEntry (path : FieldPath) (input : Data) (name : String) (field : Field) :
    Except ValidationError (Option Data) :=
  if (input.present? name).isNone ∧ mayOmit field then .ok none
  else validateField (path.field name) (input.present? name) field

theorem validateFields_cons_eq_ok_iff {name : String} {field : Field} {rest : List (String × Field)}
    {members : List (String × Data)} :
    validateFields path input ((name, field) :: rest) = .ok members ↔
      ∃ normal others, validateEntry path input name field = .ok normal ∧
        validateFields path input rest = .ok others ∧
        members = (normal.map fun normal => (name, normal)).toList ++ others := by
  rw [validateFields, validateEntry]
  split
  · simp
  · constructor
    · intro h
      obtain ⟨normal, hnormal, h⟩ := bind_eq_ok.mp h
      obtain ⟨others, hothers, h⟩ := bind_eq_ok.mp h
      exact ⟨normal, others, hnormal, hothers, (Except.ok.inj h).symm⟩
    · rintro ⟨normal, others, hnormal, hothers, rfl⟩
      exact bind_eq_ok.mpr ⟨normal, hnormal, bind_eq_ok.mpr ⟨others, hothers, rfl⟩⟩

/-- The members are those of declared fields, in order of declaration. -/
theorem keys_of_validateFields {members : List (String × Data)}
    (h : validateFields path input fields = .ok members) :
    (members.map (·.1)).Sublist (fields.map (·.1)) := by
  induction fields generalizing members with
  | nil =>
    obtain rfl := Except.ok.inj h
    exact List.Sublist.refl []
  | cons head rest ih =>
    obtain ⟨name, field⟩ := head
    obtain ⟨normal, others, -, hothers, rfl⟩ := validateFields_cons_eq_ok_iff.mp h
    cases normal with
    | none => exact (ih hothers).cons name
    | some normal => exact (ih hothers).cons_cons name

/-- Where no name is declared twice, a member is what its field validates to. -/
theorem validateEntry_of_validateFields {members : List (String × Data)}
    (hdistinct : (fields.map (·.1)).Nodup) (h : validateFields path input fields = .ok members)
    {name : String} {field : Field} (hmem : (name, field) ∈ fields) :
    validateEntry path input name field = .ok (member? name members) := by
  induction fields generalizing members with
  | nil => cases hmem
  | cons head rest ih =>
    obtain ⟨first, found⟩ := head
    obtain ⟨hnew, hrest⟩ := List.nodup_cons.mp hdistinct
    obtain ⟨normal, others, hnormal, hothers, rfl⟩ := validateFields_cons_eq_ok_iff.mp h
    rcases List.mem_cons.mp hmem with heq | hmem
    · obtain ⟨rfl, rfl⟩ := Prod.mk.inj heq
      have hmissing : member? name others = none :=
        Data.member?_eq_none fun hmem => hnew ((keys_of_validateFields hothers).subset hmem)
      rw [hnormal]
      cases normal with
      | none => exact congrArg _ hmissing.symm
      | some normal => exact congrArg _ (if_pos rfl).symm
    · have hne : first ≠ name := fun heq => hnew (heq ▸ List.mem_map_of_mem (f := (·.1)) hmem)
      rw [ih hrest hothers hmem]
      cases normal with
      | none => rfl
      | some normal => exact congrArg _ (if_neg hne).symm

/-- **The members of a valid object.** Where no name is declared twice, they are those that the
fields are validated to, in order of declaration. -/
theorem validateFields_eq_ok_iff {members : List (String × Data)} (hdistinct : (fields.map (·.1)).Nodup) :
    validateFields path input fields = .ok members ↔
      (members.map (·.1)).Sublist (fields.map (·.1)) ∧ ∀ name field, (name, field) ∈ fields →
        validateEntry path input name field = .ok (member? name members) := by
  refine ⟨fun h => ⟨keys_of_validateFields h, fun _ _ => validateEntry_of_validateFields hdistinct h⟩, ?_⟩
  rintro ⟨hkeys, hentries⟩
  induction fields generalizing members with
  | nil =>
    obtain rfl := List.map_eq_nil_iff.mp (List.sublist_nil.mp hkeys)
    rfl
  | cons head rest ih =>
    obtain ⟨first, found⟩ := head
    obtain ⟨hnew, hrest⟩ := List.nodup_cons.mp hdistinct
    rw [validateFields_cons_eq_ok_iff]
    have hfirst := hentries first found List.mem_cons_self
    -- the first name has a member in front or none at all
    rw [List.map_cons, List.sublist_cons_iff] at hkeys
    rcases hkeys with hkeys | ⟨others, heq, hothers⟩
    · have hnone : member? first members = none := Data.member?_eq_none fun hmem => hnew (hkeys.subset hmem)
      refine ⟨none, members, hnone ▸ hfirst, ih hrest hkeys fun name field hmem => ?_, rfl⟩
      exact hentries name field (List.mem_cons_of_mem _ hmem)
    · obtain ⟨⟨key, normal⟩, tail, rfl, rfl, rfl⟩ := List.map_eq_cons_iff.mp heq
      rw [member?, if_pos rfl] at hfirst
      refine ⟨some normal, tail, hfirst, ih hrest hothers fun name field hmem => ?_, rfl⟩
      have hne : key ≠ name := fun heq => hnew (heq ▸ List.mem_map_of_mem (f := (·.1)) hmem)
      rw [hentries name field (List.mem_cons_of_mem _ hmem), member?, if_neg hne]

/-- An object with the members that are checked against fields. -/
def checkObject (fields : List (String × Field)) (path : FieldPath) (input : Data) :
    Except ValidationError Data := do
  let members ← validateFields path input fields
  .ok (.obj (membersOf members))

theorem checkObject_eq_ok_iff {normal : Data} :
    checkObject fields path input = .ok normal ↔
      ∃ members, validateFields path input fields = .ok members ∧ normal = .obj (membersOf members) := by
  rw [checkObject, bind_eq_ok]
  simp only [Except.ok.injEq, eq_comm]

/-- Valid data is an object that is checked against the fields. -/
theorem validate_eq_ok_iff {schema : Schema} {normal : Data} :
    schema.validate input = .ok normal ↔ isObject input = true ∧
      checkObject schema [] input = .ok normal := by
  rw [Schema.validate]
  cases isObject input <;> simp [checkObject]

/-! ### Items of arrays -/

section Items

variable {check : FieldPath → Data → Except ValidationError Data} {number : Nat} {data checked : List Data}

theorem items_cons_eq_ok_iff {item : Data} {rest : List Data} :
    items check path number (item :: rest) = .ok checked ↔
      isObject (itemData item) = true ∧ ∃ first others, check (path.item number) (itemData item) = .ok first ∧
        items check path (number + 1) rest = .ok others ∧ checked = first :: others := by
  rw [items]
  change (if (!isObject (itemData item)) = true then _ else check (path.item number)
    (itemData item) >>= _) = _ ↔ _
  split
  · rename_i hnot
    have hfalse : isObject (itemData item) = false := by simpa using hnot
    simp [hfalse]
  · rename_i hgiven
    have htrue : isObject (itemData item) = true := by simpa using hgiven
    simp only [htrue, true_and, bind_eq_ok, Except.ok.injEq]
    constructor
    · rintro ⟨first, hfirst, others, hothers, rfl⟩
      exact ⟨first, others, hfirst, hothers, rfl⟩
    · rintro ⟨first, others, hfirst, hothers, rfl⟩
      exact ⟨first, hfirst, others, hothers, rfl⟩

/-- **The items of an array in normal form.** Each is what the object in its place is checked to,
null counting as an empty one. -/
theorem items_eq_ok_iff :
    items check path number data = .ok checked ↔
      data.length = checked.length ∧ ∀ (i : Nat) (item normal : Data), data[i]? = some item →
        checked[i]? = some normal →
          isObject (itemData item) = true ∧ check (path.item (number + i)) (itemData item) = .ok normal := by
  induction data generalizing number checked with
  | nil => cases checked <;> simp [items]
  | cons item rest ih =>
    rw [items_cons_eq_ok_iff]
    constructor
    · rintro ⟨hobject, first, others, hfirst, hothers, rfl⟩
      obtain ⟨hlength, hothers⟩ := ih.mp hothers
      refine ⟨congrArg (· + 1) hlength, fun i found normal hfound hnormal => ?_⟩
      cases i with
      | zero =>
        obtain rfl := Option.some.inj hfound
        obtain rfl := Option.some.inj hnormal
        exact ⟨hobject, hfirst⟩
      | succ i =>
        have hplace : number + (i + 1) = number + 1 + i := by omega
        rw [hplace]
        exact hothers i found normal hfound hnormal
    · rintro ⟨hlength, hall⟩
      cases checked with
      | nil => cases hlength
      | cons first others =>
        obtain ⟨hobject, hfirst⟩ := hall 0 item first rfl rfl
        refine ⟨hobject, first, others, hfirst,
          ih.mpr ⟨Nat.succ.inj hlength, fun i found normal hfound hnormal => ?_⟩, rfl⟩
        have hplace : number + 1 + i = number + (i + 1) := by omega
        rw [hplace]
        exact hall (i + 1) found normal hfound hnormal

/-- The items in normal form, one by one, whatever their places. -/
theorem items_eq_ok (h : items check path number data = .ok checked) :
    List.Forall₂ (fun item normal => ∃ place, check place (itemData item) = .ok normal) data checked := by
  obtain ⟨hlength, hall⟩ := items_eq_ok_iff.mp h
  refine List.forall₂_iff_get.mpr ⟨hlength, fun i hi hnormal => ⟨_, (hall i _ _ ?_ ?_).2⟩⟩
  · exact List.getElem?_eq_getElem hi
  · exact List.getElem?_eq_getElem hnormal

end Items

/-! ### The value of a field, by its type -/

section Value

variable {field : Field} {value out : Option Data}

theorem validateField_scalar_eq_ok_iff {validator : Validator} (htype : field.type = .scalar validator)
    (hshape : field.shape = none) :
    validateField path value field = .ok out ↔
      ∃ normal, validator.check (value.getD .null) = .ok normal ∧ out = some normal := by
  cases field
  subst htype hshape
  rw [validateField, scalar]
  cases validator.check (value.getD .null) with
  | error issues => simp [Except.map]
  | ok normal => simp [Except.map, eq_comm]

theorem validateField_choice_eq_ok_iff {members : List String} (htype : field.type = .choice members)
    (hshape : field.shape = none) :
    validateField path value field = .ok out ↔
      ∃ text ∈ members, value = some (.str text) ∧ out = some (.str text) := by
  cases field
  subst htype hshape
  rw [validateField]
  unfold choice
  by_cases hempty : members.isEmpty = true
  · simp [List.isEmpty_iff.mp hempty, Except.map]
  rw [if_neg hempty]
  cases value with
  | none => simp [Except.map]
  | some data =>
    cases data with
    | null | bool _ | num _ | arr _ | obj _ => simp [Except.map]
    | str text =>
      by_cases hmem : text ∈ members
      · simp [hmem, Except.map, eq_comm]
      · simp [hmem, Except.map]

theorem validateField_object_eq_ok_iff (htype : field.type = .object) (hshape : field.shape = some fields) :
    validateField path value field = .ok out ↔
      ∃ given normal, value.getD (.obj []) = .obj given ∧ checkObject fields path (.obj given) = .ok normal ∧
        out = some normal := by
  cases field
  subst htype hshape
  rw [validateField]
  cases hdata : value.getD (.obj []) with
  | null | bool _ | num _ | str _ | arr _ => simp [isObject]
  | obj given =>
    show (validateFields path (.obj given) fields >>= _) = _ ↔ _
    rw [bind_eq_ok]
    constructor
    · rintro ⟨members, hmembers, h⟩
      exact ⟨given, _, rfl, checkObject_eq_ok_iff.mpr ⟨members, hmembers, rfl⟩, (Except.ok.inj h).symm⟩
    · rintro ⟨_, normal, heq, hnormal, rfl⟩
      obtain rfl := Data.obj.inj heq
      obtain ⟨members, hmembers, rfl⟩ := checkObject_eq_ok_iff.mp hnormal
      exact ⟨members, hmembers, rfl⟩

theorem validateField_array_eq_ok_iff (htype : field.type = .objectArray)
    (hshape : field.shape = some fields) :
    validateField path value field = .ok out ↔
      ∃ data checked, value.getD (.arr []) = .arr data ∧
        items (checkObject fields) path 0 data = .ok checked ∧
        out = some (.arr checked) := by
  cases field
  subst htype hshape
  rw [validateField]
  cases hdata : value.getD (.arr []) with
  | null | bool _ | num _ | str _ | obj _ => simp
  | arr data =>
    show (items (checkObject fields) path 0 data >>= _) = _ ↔ _
    rw [bind_eq_ok]
    constructor
    · rintro ⟨checked, hchecked, h⟩
      exact ⟨data, checked, rfl, hchecked, (Except.ok.inj h).symm⟩
    · rintro ⟨_, checked, heq, hchecked, rfl⟩
      obtain rfl := Data.arr.inj heq
      exact ⟨checked, hchecked, rfl⟩

/-- An object or an array without a shape is always valid, and gives nothing. -/
theorem validateField_bare (path : FieldPath) (value : Option Data) (hobject : field.type.isObjectLike = true)
    (hshape : field.shape = none) : validateField path value field = .ok none := by
  cases field with
  | mk type required shape key group sibling xpath extras transform fallback =>
    obtain rfl : shape = none := hshape
    cases type with
    | object | objectArray => rfl
    | scalar _ | choice _ => cases hobject

/-- A scalar with a shape is never valid. -/
theorem shape_eq_none_of_validateField (hscalar : field.type.isObjectLike = false)
    (h : validateField path value field = .ok out) : field.shape = none := by
  cases field with
  | mk type required shape key group sibling xpath extras transform fallback =>
    cases shape with
    | none => rfl
    | some fields =>
      cases type with
      | object | objectArray => cases hscalar
      | scalar _ | choice _ => cases h

end Value

/-! ### Normal forms -/

/-- Whether data is what validation leaves of an object under fields. -/
def Normalizes (fields : List (String × Field)) (input normal : Data) : Prop :=
  ∃ path members, validateFields path input fields = .ok members ∧ normal = .obj (membersOf members)

theorem normalizes_of_validate {schema : Schema} {normal : Data} (h : schema.validate input = .ok normal) :
    Normalizes schema input normal := by
  obtain ⟨members, hmembers, rfl⟩ := checkObject_eq_ok_iff.mp (validate_eq_ok_iff.mp h).2
  exact ⟨[], members, hmembers, rfl⟩

namespace Normalizes

variable {normal : Data} {name : String} {field : Field}

theorem isNull_eq_false (h : Normalizes fields input normal) : normal.isNull = false := by
  obtain ⟨path, members, -, rfl⟩ := h
  rfl

/-- The value under a name is what its field validates to. -/
theorem get? (h : Normalizes fields input normal) (hdistinct : (fields.map (·.1)).Nodup)
    (hmem : (name, field) ∈ fields) :
    (input.present? name = none ∧ mayOmit field = true ∧ normal.get? name = none) ∨
      ∃ place value, validateField place (input.present? name) field = .ok value ∧
        normal.get? name = value := by
  obtain ⟨path, members, hmembers, rfl⟩ := h
  have hkeys := (keys_of_validateFields hmembers).nodup hdistinct
  have hentry := validateEntry_of_validateFields hdistinct hmembers hmem
  rw [Data.get?, Data.membersOf_of_nodup hkeys]
  rw [validateEntry] at hentry
  split at hentry
  · rename_i homit
    exact .inl ⟨by simpa using homit.1, homit.2, (Except.ok.inj hentry).symm⟩
  · exact .inr ⟨_, _, hentry, rfl⟩

/-- The value of an object is its normal form; a missing one counts as empty. -/
theorem object (h : Normalizes fields input normal) (hdistinct : (fields.map (·.1)).Nodup)
    (hmem : (name, field) ∈ fields) (htype : field.type = .object) {below : List (String × Field)}
    (hshape : field.shape = some below) :
    ∃ value, normal.present? name = some value ∧
      Normalizes below ((input.present? name).getD (.obj [])) value := by
  rcases h.get? hdistinct hmem with ⟨-, homit, -⟩ | ⟨place, value, hvalue, hget⟩
  · simp [mayOmit, htype, FieldType.isObjectLike] at homit
  · obtain ⟨given, found, hgiven, hfound, rfl⟩ := (validateField_object_eq_ok_iff htype hshape).mp hvalue
    obtain ⟨inner, hinner, rfl⟩ := checkObject_eq_ok_iff.mp hfound
    refine ⟨.obj (membersOf inner), ?_, place, inner, hgiven ▸ hinner, rfl⟩
    rw [Data.present?, hget]
    rfl

/-- The value of an array is that of the normal forms of its items; a missing one counts as empty. -/
theorem array (h : Normalizes fields input normal) (hdistinct : (fields.map (·.1)).Nodup)
    (hmem : (name, field) ∈ fields) (htype : field.type = .objectArray) {below : List (String × Field)}
    (hshape : field.shape = some below) :
    List.Forall₂ (fun item value => Normalizes below (itemData item) value)
      (itemsOf (input.present? name)) (itemsOf (normal.present? name)) := by
  rcases h.get? hdistinct hmem with ⟨-, homit, -⟩ | ⟨place, value, hvalue, hget⟩
  · simp [mayOmit, htype, FieldType.isObjectLike] at homit
  · obtain ⟨data, checked, hdata, hchecked, rfl⟩ := (validateField_array_eq_ok_iff htype hshape).mp hvalue
    have hinput : itemsOf (input.present? name) = data := by
      cases hpresent : input.present? name with
      | none =>
        rw [hpresent] at hdata
        exact Data.arr.inj hdata
      | some found =>
        rw [hpresent, Option.getD_some] at hdata
        rw [hdata]
        rfl
    have hnormal : itemsOf (normal.present? name) = checked := by
      rw [Data.present?, hget]
      rfl
    rw [hinput, hnormal]
    refine (items_eq_ok hchecked).imp fun item value hitem => ?_
    obtain ⟨inner, hinner⟩ := hitem
    exact ⟨inner, checkObject_eq_ok_iff.mp hinner⟩

/-- The value of a scalar is what its validator gives. -/
theorem scalar (h : Normalizes fields input normal) (hdistinct : (fields.map (·.1)).Nodup)
    (hmem : (name, field) ∈ fields) {validator : Validator} (htype : field.type = .scalar validator) :
    (input.present? name = none ∧ field.isRequired = false ∧ normal.get? name = none) ∨
      ∃ value, validator.check ((input.present? name).getD .null) = .ok value ∧
        normal.get? name = some value := by
  rcases h.get? hdistinct hmem with ⟨hnone, homit, hget⟩ | ⟨place, value, hvalue, hget⟩
  · exact .inl ⟨hnone, by simpa [mayOmit, htype, FieldType.isObjectLike] using homit, hget⟩
  · have hshape := shape_eq_none_of_validateField (by rw [htype]; rfl) hvalue
    obtain ⟨checked, hcheck, rfl⟩ := (validateField_scalar_eq_ok_iff htype hshape).mp hvalue
    exact .inr ⟨checked, hcheck, hget⟩

/-- The value of a choice is the text, one of its members. -/
theorem choice (h : Normalizes fields input normal) (hdistinct : (fields.map (·.1)).Nodup)
    (hmem : (name, field) ∈ fields) {members : List String} (htype : field.type = .choice members) :
    normal.get? name = none ∨ ∃ text ∈ members, normal.get? name = some (.str text) := by
  rcases h.get? hdistinct hmem with ⟨-, -, hget⟩ | ⟨place, value, hvalue, hget⟩
  · exact .inl hget
  · have hshape := shape_eq_none_of_validateField (by rw [htype]; rfl) hvalue
    obtain ⟨text, htext, -, rfl⟩ := (validateField_choice_eq_ok_iff htype hshape).mp hvalue
    exact .inr ⟨text, htext, hget⟩

end Normalizes

end Validation

end InvoiceXml
