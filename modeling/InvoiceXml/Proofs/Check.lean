import InvoiceXml.Proofs.Likeness

/-!
# Checks

Validation checks the value of each field, depth first in order of declaration, and of each array
one item after the other. Here these checks are listed without being made (`checksBelow`): a check
has a path, at which it finds the value (`Data.valueAt?`), and says of it what is wrong, apart from
what is inside (`Field.fault?`, `itemFault?`), or nothing. A check of an object, an array or an item
comes before those of what is inside.

* `refusal?_validateField`, `refusal?_items`: a field and the items of an array are refused with the
  error of the first of their checks that fails;
* **`refusesFirst`**: and so is an object, by induction on the depth of its fields.
-/

namespace InvoiceXml

open Assembly (itemData)
open Validation (isObject isArray mayOmit)

/-! ### Values at paths -/

namespace Data

/-- What one step into data leads to; null counts as missing under a name. -/
def step? : Segment → Data → Option Data
  | .field name, data => data.present? name
  | .item number, arr items => items[number]?
  | .item _, _ => none

/-- The value at a path, if there is one. -/
def valueAt? : FieldPath → Data → Option Data
  | [], data => some data
  | segment :: rest, data => (data.step? segment).bind (valueAt? rest)

theorem valueAt?_append (outer inner : FieldPath) (data : Data) :
    data.valueAt? (outer ++ inner) = (data.valueAt? outer).bind (valueAt? inner) := by
  induction outer generalizing data with
  | nil => rfl
  | cons segment rest ih =>
    rw [List.cons_append, valueAt?, valueAt?]
    cases data.step? segment with
    | none => rfl
    | some below => exact ih below

theorem valueAt?_field (path : FieldPath) (name : String) (data : Data) :
    data.valueAt? (path.field name) = (data.valueAt? path).bind (present? name) := by
  rw [FieldPath.field, valueAt?_append]
  refine congrArg _ (funext fun below => ?_)
  rw [valueAt?, step?]
  exact Option.bind_fun_some _

theorem valueAt?_item (path : FieldPath) (number : Nat) (data : Data) :
    data.valueAt? (path.item number) = (data.valueAt? path).bind (step? (.item number)) := by
  rw [FieldPath.item, valueAt?_append]
  refine congrArg _ (funext fun below => ?_)
  rw [valueAt?]
  exact Option.bind_fun_some _

/-- The items of the array at a path; there are none where there is no array. -/
def itemsAt (path : FieldPath) (data : Data) : List Data :=
  match data.valueAt? path with
  | some (arr items) => items
  | _ => []

theorem valueAt?_item_eq (path : FieldPath) (number : Nat) (data : Data) :
    data.valueAt? (path.item number) = (data.itemsAt path)[number]? := by
  rw [valueAt?_item, itemsAt]
  cases data.valueAt? path with
  | none => rfl
  | some value => cases value <;> rfl

theorem itemsAt_of_getD {path : FieldPath} {data : Data} {items : List Data}
    (h : (data.valueAt? path).getD (arr []) = arr items) : data.itemsAt path = items := by
  rw [itemsAt]
  cases hvalue : data.valueAt? path with
  | none =>
    rw [hvalue] at h
    exact arr.inj h
  | some value =>
    obtain rfl : value = arr items := by rwa [hvalue] at h
    rfl

/-- Where there is an item, there is an array that has it. -/
theorem exists_arr_of_isSome {path : FieldPath} {number : Nat} {data : Data}
    (h : (data.valueAt? (path.item number)).isSome = true) :
    ∃ items, data.valueAt? path = some (arr items) ∧ number < items.length := by
  rw [valueAt?_item] at h
  cases hvalue : data.valueAt? path with
  | none =>
    rw [hvalue] at h
    cases h
  | some value =>
    rw [hvalue] at h
    cases value with
    | arr items => exact ⟨items, rfl, by simpa [step?] using h⟩
    | null | bool _ | num _ | str _ | obj _ => cases h

/-- Data emptied of what is inside of it. -/
def outline : Data → Data
  | arr _ => arr []
  | obj _ => obj []
  | data => data

end Data

/-! ### Checks -/

/-- Whether an error for the fault names the business term of the field. -/
def ValidationFault.namesTerm : ValidationFault → Bool
  | .issues _ | .notMember _ => true
  | .inputKind _ | .invalidType | .notObject | .notArray => false

/-- The error for a fault of a field at a path. -/
def Field.errorAt (field : Field) (path : FieldPath) (fault : ValidationFault) : ValidationError :=
  { path, fault, key := if fault.namesTerm then field.key else none }

/-- What is wrong with the value of a field, apart from what is inside of it. -/
def Field.fault? (field : Field) (value : Option Data) : Option ValidationFault :=
  if value.isNone ∧ mayOmit field then none
  else
    match field.type, field.shape with
    | .scalar _, some _ => some .invalidType
    | .choice _, some _ => some .invalidType
    | .scalar validator, none =>
      match validator.check (value.getD .null) with
      | .ok _ => none
      | .error issues => some (.issues issues)
    | .choice members, none =>
      if members.isEmpty then some .invalidType
      else
        match value with
        | some (.str text) => if text ∈ members then none else some (.notMember (.str text))
        | value => some (.notMember (value.getD .null))
    | .object, some _ => if isObject (value.getD (.obj [])) then none else some .notObject
    | .objectArray, some _ => if isArray (value.getD (.arr [])) then none else some .notArray
    | .object, none => none
    | .objectArray, none => none

/-- What is wrong with an item of an array of objects, apart from what is inside of it. -/
def Validation.itemFault? (item : Option Data) : Option ValidationFault :=
  if isObject (itemData (item.getD .null)) then none else some .notObject

/-- The check of the value of a field, or of an item of an array that the field declares. -/
structure Check where
  path : FieldPath
  field : Field
  isItem : Bool := false

namespace Check

/-- What the check finds to be wrong with the data. -/
def fault? (input : Data) (check : Check) : Option ValidationFault :=
  if check.isItem then Validation.itemFault? (input.valueAt? check.path)
  else check.field.fault? (input.valueAt? check.path)

/-- The error of a check that fails. -/
def error? (input : Data) (check : Check) : Option ValidationError :=
  (check.fault? input).map (check.field.errorAt check.path)

/-- What the check sees of the data: the value of a scalar or a choice, but of an object, an array
or an item only what it is. A field without the shape that it should have is not looked at. -/
def sees (input : Data) (check : Check) : Option Data :=
  if check.isItem then (input.valueAt? check.path).map Data.outline
  else if check.field.type.isObjectLike then
    if check.field.shape.isSome then (input.valueAt? check.path).map Data.outline else none
  else input.valueAt? check.path

end Check

namespace Validation

/-- The checks of the items of an array from a number on, each before those of what is inside of it.
The last one looks for one more item and finds none. -/
def itemChecks (field : Field) (below : FieldPath → List Check) (path : FieldPath) :
    (number count : Nat) → List Check
  | number, 0 => [{ path := path.item number, field, isItem := true }]
  | number, count + 1 =>
    { path := path.item number, field, isItem := true } ::
      (below (path.item number) ++ itemChecks field below path (number + 1) count)

mutual

/-- The checks of a field: of its value, and then of what is inside of that. -/
def checksOfField (input : Data) (path : FieldPath) : Field → List Check
  | { type, required, shape, key, group, sibling, xpath, extras, transform, fallback } =>
    let field : Field := { type, required, shape, key, group, sibling, xpath, extras, transform, fallback }
    { path, field } ::
      match type, shape with
      | .object, some fields => checksBelow input path fields
      | .objectArray, some fields =>
        itemChecks field (fun path => checksBelow input path fields) path 0 (input.itemsAt path).length
      | _, _ => []

/-- The checks of the fields of an object at a path, depth first in order of declaration. -/
def checksBelow (input : Data) (path : FieldPath) : List (String × Field) → List Check
  | [] => []
  | (name, field) :: rest => checksOfField input (path.field name) field ++ checksBelow input path rest

end

section Checks

variable {input : Data} {path : FieldPath} {field : Field} {fields : List (String × Field)}

theorem checksOfField_leaf (hleaf : field.type.isObjectLike = false ∨ field.shape = none) :
    checksOfField input path field = [{ path, field }] := by
  cases field with
  | mk type required shape =>
    rcases hleaf with hscalar | hbare
    · cases type with
      | object | objectArray => cases hscalar
      | scalar _ | choice _ => simp [checksOfField]
    · obtain rfl : shape = none := hbare
      cases type <;> simp [checksOfField]

theorem checksOfField_object (htype : field.type = .object) (hshape : field.shape = some fields) :
    checksOfField input path field = { path, field } :: checksBelow input path fields := by
  cases field
  subst htype hshape
  rw [checksOfField]

theorem checksOfField_array (htype : field.type = .objectArray) (hshape : field.shape = some fields) :
    checksOfField input path field = { path, field } ::
      itemChecks field (fun path => checksBelow input path fields) path 0 (input.itemsAt path).length := by
  cases field
  subst htype hshape
  rw [checksOfField]

end Checks

/-! ### The error is that of the first check that fails -/

section Errors

variable {input : Data} {path : FieldPath} {field : Field} {fields : List (String × Field)}
  {value : Option Data}

/-- The error of a run that is refused. -/
def refusal? {α : Type} : Except ValidationError α → Option ValidationError
  | .ok _ => none
  | .error error => some error

theorem refusal?_eq_some_iff {α : Type} {run : Except ValidationError α} {error : ValidationError} :
    refusal? run = some error ↔ run = .error error := by
  cases run <;> simp [refusal?]

/-- A run that goes on is refused first by its first part, and then by the second. -/
theorem refusal?_bind {α β : Type} {run : Except ValidationError α} {next : α → Except ValidationError β}
    {later : Option ValidationError} (hnext : ∀ a, refusal? (next a) = later) :
    refusal? (run >>= next) = (refusal? run).or later := by
  cases run with
  | error error => rfl
  | ok a => exact hnext a

/-- A run whose second part is not refused is refused by its first part only. -/
theorem refusal?_bind_of_none {α β : Type} {run : Except ValidationError α}
    {next : α → Except ValidationError β} (hnext : ∀ a, refusal? (next a) = none) :
    refusal? (run >>= next) = refusal? run := by
  rw [refusal?_bind hnext, Option.or_none]

theorem refusal?_map {α β : Type} (run : Except ValidationError α) (change : α → β) :
    refusal? (run.map change) = refusal? run := by
  cases run <;> rfl

/-- Whether the fields of an object at any path of any data are refused with the error of the first
check that fails. -/
def RefusesFirst (fields : List (String × Field)) : Prop :=
  ∀ (input : Data) (path : FieldPath) (data : Data),
    (∀ name, data.present? name = input.valueAt? (path.field name)) →
    refusal? (validateFields path data fields) =
      (checksBelow input path fields).findSome? (Check.error? input)

theorem refusal?_checkObject (hfields : RefusesFirst fields) {data : Data}
    (hdata : ∀ name, data.present? name = input.valueAt? (path.field name)) :
    refusal? (checkObject fields path data) =
      (checksBelow input path fields).findSome? (Check.error? input) := by
  rw [checkObject, refusal?_bind_of_none fun _ => rfl, hfields input path data hdata]

/-- The items of an array are refused with the error of the first check that fails. -/
theorem refusal?_items (field : Field) (hfields : RefusesFirst fields) (number : Nat) {rest : List Data}
    (hrest : ∀ i, input.valueAt? (path.item (number + i)) = rest[i]?) :
    refusal? (items (checkObject fields) path number rest) =
      (itemChecks field (fun path => checksBelow input path fields) path number rest.length).findSome?
        (Check.error? input) := by
  induction rest generalizing number with
  | nil =>
    have hnone : input.valueAt? (path.item number) = none := hrest 0
    simp [items, itemChecks, refusal?, Check.error?, Check.fault?, hnone, itemFault?, itemData,
      Data.isNull, isObject]
  | cons item rest ih =>
    have hitem : input.valueAt? (path.item number) = some item := hrest 0
    have hlater := ih (number + 1) fun i => by
      rw [Nat.add_right_comm, Nat.add_assoc]
      exact hrest (i + 1)
    have hfault : itemFault? (input.valueAt? (path.item number)) =
        if isObject (itemData item) then none else some .notObject := by rw [hitem]; rfl
    rw [items, List.length_cons, itemChecks, List.findSome?_cons, List.findSome?_append, ← hlater]
    change refusal? (if (!isObject (itemData item)) = true then _ else
      checkObject fields (path.item number) (itemData item) >>= _) = _
    cases hobject : isObject (itemData item) with
    | false =>
      simp [Check.error?, Check.fault?, hfault, hobject, refusal?, Field.errorAt, ValidationFault.namesTerm]
    | true =>
      have hdata : ∀ name, (itemData item).present? name =
          input.valueAt? ((path.item number).field name) := by
        intro name
        rw [Data.valueAt?_field, hitem, present?_itemData]
        rfl
      simp only [Check.error?, Check.fault?, hfault, hobject, if_true, Option.map_none, Bool.not_true,
        Bool.false_eq_true, if_false]
      rw [refusal?_bind fun first => refusal?_bind_of_none fun others => rfl,
        refusal?_checkObject hfields hdata]

/-- A field without anything inside is refused for what is wrong with its value. -/
theorem refusal?_validateField_leaf (hleaf : field.type.isObjectLike = false ∨ field.shape = none)
    (hgiven : ¬(value.isNone ∧ mayOmit field)) :
    refusal? (validateField path value field) = (field.fault? value).map (field.errorAt path) := by
  rw [Field.fault?, if_neg hgiven]
  cases field with
  | mk type required shape key =>
    cases type with
    | scalar validator =>
      cases shape with
      | some below => rfl
      | none =>
        simp only [validateField, refusal?_map, scalar]
        cases validator.check (value.getD .null) <;> rfl
    | choice members =>
      cases shape with
      | some below => rfl
      | none =>
        simp only [validateField, refusal?_map, choice]
        cases members.isEmpty with
        | true => rfl
        | false =>
          cases value with
          | none => rfl
          | some data =>
            cases data with
            | null | bool _ | num _ | arr _ | obj _ => rfl
            | str text =>
              by_cases hmember : text ∈ members <;>
                simp [hmember, refusal?, Field.errorAt, ValidationFault.namesTerm]
    | object | objectArray =>
      obtain rfl : shape = none := hleaf.resolve_left (Bool.noConfusion ·)
      rfl

/-- An object is refused for not being one, or with the error of the first check below that fails. -/
theorem refusal?_validateField_object (hfields : RefusesFirst fields) (htype : field.type = .object)
    (hshape : field.shape = some fields) :
    refusal? (validateField path (input.valueAt? path) field) =
      ((field.fault? (input.valueAt? path)).map (field.errorAt path)).or
        ((checksBelow input path fields).findSome? (Check.error? input)) := by
  have hgiven : ¬((input.valueAt? path).isNone ∧ mayOmit field) := by
    simp [mayOmit, htype, FieldType.isObjectLike]
  have hinside := hfields input path ((input.valueAt? path).getD (.obj [])) fun name => by
    rw [Data.valueAt?_field]
    cases input.valueAt? path <;> rfl
  rw [Field.fault?, if_neg hgiven]
  cases field
  subst htype hshape
  rw [validateField]
  cases hobject : isObject ((input.valueAt? path).getD (.obj [])) with
  | false => simp [refusal?, Field.errorAt, ValidationFault.namesTerm]
  | true =>
    simp only [Bool.not_true, Bool.false_eq_true, if_false, if_true, Option.map_none, Option.none_or]
    rw [refusal?_bind_of_none fun _ => rfl, hinside]

/-- An array is refused for not being one, or with the error of the first check of its items that fails. -/
theorem refusal?_validateField_array (hfields : RefusesFirst fields) (htype : field.type = .objectArray)
    (hshape : field.shape = some fields) :
    refusal? (validateField path (input.valueAt? path) field) =
      ((field.fault? (input.valueAt? path)).map (field.errorAt path)).or
        ((itemChecks field (fun path => checksBelow input path fields) path 0
          (input.itemsAt path).length).findSome? (Check.error? input)) := by
  have hgiven : ¬((input.valueAt? path).isNone ∧ mayOmit field) := by
    simp [mayOmit, htype, FieldType.isObjectLike]
  rw [Field.fault?, if_neg hgiven]
  have hitems : ∀ i, input.valueAt? (path.item (0 + i)) = (input.itemsAt path)[i]? := by
    intro i
    rw [Nat.zero_add, Data.valueAt?_item_eq]
  have hinside := refusal?_items field hfields 0 hitems
  cases field
  subst htype hshape
  rw [validateField]
  cases hdata : (input.valueAt? path).getD (.arr []) with
  | arr data =>
    simp only [isArray, if_true, Option.map_none, Option.none_or]
    rw [← hinside, Data.itemsAt_of_getD hdata]
    exact refusal?_bind_of_none fun _ => rfl
  | null | bool _ | num _ | str _ | obj _ => rfl

/-- A field that is checked is refused with the error of the first of its checks that fails. -/
theorem refusal?_validateField (hbelow : ∀ below, field.shape = some below → RefusesFirst below)
    (hgiven : ¬((input.valueAt? path).isNone ∧ mayOmit field)) :
    refusal? (validateField path (input.valueAt? path) field) =
      (checksOfField input path field).findSome? (Check.error? input) := by
  have hown : Check.error? input { path, field } =
    (field.fault? (input.valueAt? path)).map (field.errorAt path) := rfl
  have hleaf : field.type.isObjectLike = false ∨ field.shape = none →
      refusal? (validateField path (input.valueAt? path) field) =
        (checksOfField input path field).findSome? (Check.error? input) := by
    intro hleaf
    rw [checksOfField_leaf hleaf, List.findSome?_singleton, hown, refusal?_validateField_leaf hleaf hgiven]
  cases hshape : field.shape with
  | none => exact hleaf (.inr hshape)
  | some below =>
    have hfields := hbelow below hshape
    cases htype : field.type with
    | scalar _ | choice _ => exact hleaf (.inl (by rw [htype]; rfl))
    | object =>
      rw [checksOfField_object htype hshape, List.findSome?_cons, hown,
        refusal?_validateField_object hfields htype hshape]
      cases field.fault? (input.valueAt? path) <;> rfl
    | objectArray =>
      rw [checksOfField_array htype hshape, List.findSome?_cons, hown,
        refusal?_validateField_array hfields htype hshape]
      cases field.fault? (input.valueAt? path) <;> rfl

/-- **The first error.** The fields of an object are refused with the error of the first check that fails. -/
theorem refusesFirst : ∀ fields : List (String × Field), RefusesFirst fields := by
  refine Schema.induction_on_shapes fun fields ih input path data hdata => ?_
  induction fields with
  | nil => rfl
  | cons head rest ihRest =>
    obtain ⟨name, field⟩ := head
    have hrest := ihRest fun name field below hmem => ih name field below (List.mem_cons_of_mem _ hmem)
    have hbelow : ∀ below, field.shape = some below → RefusesFirst below :=
      fun below => ih name field below List.mem_cons_self
    rw [validateFields, checksBelow, List.findSome?_append, ← hrest]
    split
    · rename_i homitted
      rw [hdata name] at homitted
      have hleaf : field.type.isObjectLike = false := by
        have homit := homitted.2
        rw [mayOmit, Bool.and_eq_true, Bool.not_eq_true'] at homit
        simpa using homit.2
      have hnone : Check.error? input { path := path.field name, field } = none := by
        simp only [Check.error?, Check.fault?, Field.fault?, if_pos homitted]
        rfl
      rw [checksOfField_leaf (.inl hleaf), List.findSome?_singleton, hnone, Option.none_or]
    · rename_i hgiven
      rw [hdata name] at hgiven ⊢
      rw [refusal?_bind fun normal => refusal?_bind_of_none fun _ => rfl]
      exact congrArg (Option.or · _) (refusal?_validateField hbelow hgiven)

end Errors

end Validation

end InvoiceXml
