import InvoiceXml.Proofs.Restriction

/-!
# Data that looks alike to a schema

Two objects look alike to a schema (`Schema.Alike`) when under every declared name, at every depth,
there is the same scalar in both, or nothing in both, where null counts as nothing; of what is not
an object or an array though it should be, only that is seen. Members that are not declared are not
looked at, and neither is the order of members.

* **`validate_of_alike`**: data that looks alike has the same normal form, or the same error, and so
  it has the same markup, or the same error, when it is rendered (`Renderer.render_of_alike`);
* `validate_restrict`: what is not declared may as well be left out.
-/

namespace InvoiceXml

open Assembly (itemData)
open Validation (isObject)

/-- Whether data is an array. -/
def Validation.isArray : Data → Bool
  | .arr _ => true
  | _ => false

mutual

/-- Whether two data are objects with values under the names of fields that look alike. -/
inductive Schema.Alike : List (String × Field) → Data → Data → Prop
  | object {fields : List (String × Field)} {given others : List (String × Data)}
      (values : ∀ name field, (name, field) ∈ fields →
        field.Alike ((Data.obj given).present? name) ((Data.obj others).present? name)) :
      Schema.Alike fields (.obj given) (.obj others)

/-- Whether two items of an array look alike: both are null, or objects that look alike, or neither
of these. -/
inductive Schema.ItemAlike : List (String × Field) → Data → Data → Prop
  | null {fields : List (String × Field)} : Schema.ItemAlike fields .null .null
  | object {fields : List (String × Field)} {item other : Data} (alike : Schema.Alike fields item other) :
      Schema.ItemAlike fields item other
  | neither {fields : List (String × Field)} {item other : Data}
      (first : item.isNull = false ∧ isObject item = false)
      (second : other.isNull = false ∧ isObject other = false) :
      Schema.ItemAlike fields item other

/-- Whether two values, which may be missing, look alike to a field. A field without the shape that
it should have does not look at values. -/
inductive Field.Alike : Field → Option Data → Option Data → Prop
  | scalar {field : Field} {value : Option Data} (type : field.type.isObjectLike = false) :
    field.Alike value value
  | bare {field : Field} {value other : Option Data} (type : field.type.isObjectLike = true)
      (shape : field.shape = none) : field.Alike value other
  | missing {field : Field} : field.Alike none none
  | object {field : Field} {below : List (String × Field)} {data other : Data} (type : field.type = .object)
      (shape : field.shape = some below) (alike : Schema.Alike below data other) :
        field.Alike (some data) (some other)
  | notObject {field : Field} {data other : Data} (type : field.type = .object)
      (first : isObject data = false) (second : isObject other = false) :
        field.Alike (some data) (some other)
  | array {field : Field} {below : List (String × Field)} {items others : List Data}
      (type : field.type = .objectArray) (shape : field.shape = some below)
      (length : items.length = others.length)
      (alike : ∀ (i : Nat) (item other : Data), items[i]? = some item → others[i]? = some other →
        Schema.ItemAlike below item other) : field.Alike (some (.arr items)) (some (.arr others))
  | notArray {field : Field} {data other : Data} (type : field.type = .objectArray)
      (first : Validation.isArray data = false) (second : Validation.isArray other = false) :
      field.Alike (some data) (some other)

end

/-! ### One result of two runs -/

namespace Validation

open Schema (Alike ItemAlike)

variable {path : FieldPath} {fields : List (String × Field)} {field : Field} {value another : Option Data}
  {data other : Data}

/-- Of values that look alike none is passed over or both are. -/
theorem omits_of_alike (h : field.Alike value another) :
    (value.isNone = true ∧ mayOmit field = true) ↔ (another.isNone = true ∧ mayOmit field = true) := by
  cases h with
  | bare type => simp [mayOmit, type]
  | scalar | missing | object | notObject | array | notArray => rfl

/-- Whether objects that look alike to fields are checked with one result. -/
def SeesAlike (fields : List (String × Field)) : Prop :=
  ∀ path data other, Alike fields data other →
    validateFields path data fields = validateFields path other fields

/-- Items that look alike one by one are checked with one result. -/
theorem items_of_alike (hfields : SeesAlike fields) (path : FieldPath) (number : Nat)
    {given others : List Data}
    (hlength : given.length = others.length)
    (halike : ∀ (i : Nat) (item other : Data), given[i]? = some item → others[i]? = some other →
      ItemAlike fields item other) :
    items (checkObject fields) path number given = items (checkObject fields) path number others := by
  induction given generalizing number others with
  | nil =>
    obtain rfl := List.length_eq_zero_iff.mp hlength.symm
    rfl
  | cons item rest ih =>
    cases others with
    | nil => cases hlength
    | cons other others =>
      have hrest := ih (number + 1) (Nat.succ.inj hlength) fun i => halike (i + 1)
      have hfirst : isObject (itemData item) = isObject (itemData other) ∧ (isObject (itemData item) = true →
          checkObject fields (path.item number) (itemData item) =
            checkObject fields (path.item number) (itemData other)) := by
        cases halike 0 item other rfl rfl with
        | null => exact ⟨rfl, fun _ => rfl⟩
        | object h =>
          have hchecked := hfields (path.item number) _ _ h
          cases h with
          | object => exact ⟨rfl, fun _ => congrArg (· >>= _) hchecked⟩
        | neither first second =>
          have hitem : itemData item = item := if_neg (by simp [first.1])
          have hother : itemData other = other := if_neg (by simp [second.1])
          rw [hitem, hother, first.2, second.2]
          exact ⟨rfl, nofun⟩
      rw [items, items, hrest]
      change (if (!isObject (itemData item)) = true then _ else checkObject fields _ (itemData item) >>= _) =
        (if (!isObject (itemData other)) = true then _ else checkObject fields _ (itemData other) >>= _)
      rw [← hfirst.1]
      split
      · rfl
      · rename_i hobject
        rw [hfirst.2 (by simpa using hobject)]

/-- What is not an array is refused as such. -/
theorem validateField_notArray (path : FieldPath) (hdata : isArray data = false)
    (htype : field.type = .objectArray) (hshape : field.shape = some fields) :
    validateField path (some data) field = .error { path, fault := .notArray } := by
  cases field
  subst htype hshape
  cases data with
  | arr _ => cases hdata
  | null | bool _ | num _ | str _ | obj _ => rfl

/-- Values that look alike to a field are checked with one result. -/
theorem validateField_of_alike (path : FieldPath)
    (hbelow : ∀ below, field.shape = some below → SeesAlike below) (h : field.Alike value another) :
    validateField path value field = validateField path another field := by
  cases h with
  | scalar | missing => rfl
  | bare type shape => rw [validateField_bare path _ type shape, validateField_bare path _ type shape]
  | object type shape alike =>
    have hchecked := hbelow _ shape path _ _ alike
    cases field
    subst type shape
    cases alike with
    | object =>
      rw [validateField, validateField]
      exact congrArg (· >>= _) hchecked
  | notObject type first second =>
    cases field with
    | mk _ required shape =>
      subst type
      cases shape with
      | none => rfl
      | some below => simp [validateField, first, second]
  | array type shape length alike =>
    have hchecked := items_of_alike (hbelow _ shape) path 0 length alike
    cases field
    subst type shape
    rw [validateField, validateField]
    exact congrArg (· >>= _) hchecked
  | notArray type first second =>
    cases hshape : field.shape with
    | none =>
      have hobject : field.type.isObjectLike = true := by rw [type]; rfl
      rw [validateField_bare path _ hobject hshape, validateField_bare path _ hobject hshape]
    | some below =>
      rw [validateField_notArray path first type hshape, validateField_notArray path second type hshape]

/-- **Fields see nothing else.** Objects that look alike to fields are checked with one result. -/
theorem seesAlike : ∀ fields : List (String × Field), SeesAlike fields := by
  refine Schema.induction_on_shapes fun fields ih path data other h => ?_
  cases h with
  | object values =>
    induction fields with
    | nil => rfl
    | cons head rest ihRest =>
      obtain ⟨name, field⟩ := head
      have hrest := ihRest (fun name field below hmem => ih name field below (List.mem_cons_of_mem _ hmem))
        fun name field hmem => values name field (List.mem_cons_of_mem _ hmem)
      have hfield := values name field List.mem_cons_self
      have hchecked := validateField_of_alike (path.field name)
        (fun below => ih name field below List.mem_cons_self) hfield
      rw [validateFields, validateFields, hrest, hchecked, if_congr (omits_of_alike hfield) rfl rfl]

end Validation

namespace Schema

open Validation

variable {schema : Schema} {input other : Data}

/-- **What is not declared does not matter to validation.** Data that looks alike to a schema has
the same normal form, or the same error. -/
theorem validate_of_alike (h : Alike schema input other) : schema.validate input = schema.validate other := by
  have hchecked := seesAlike schema [] _ _ h
  cases h with
  | object => exact congrArg (· >>= _) hchecked

/-! ### Leaving out what is not declared -/

theorem isNull_restrictTo (shape : Option Schema) (data : Data) :
    (data.restrictTo shape).isNull = data.isNull := by
  cases shape with
  | none => rfl
  | some below => cases data <;> rfl

theorem member?_restrictMembers {fields : Schema} {name : String} {field : Field}
    (hfind : fields.find? name = some field) (members : List (String × Data)) :
    Data.member? name (Data.restrictMembers fields members) =
      (Data.member? name members).map (Data.restrictTo field.shape) := by
  induction members with
  | nil => rfl
  | cons member rest ih =>
    obtain ⟨key, value⟩ := member
    by_cases hkey : key = name
    · subst hkey
      rw [Data.restrictMembers_cons_of_declared hfind, Data.member?, if_pos rfl, Data.member?, if_pos rfl]
      rfl
    · rw [Data.member?, if_neg hkey, ← ih]
      cases hother : fields.find? key with
      | none => rw [Data.restrictMembers_cons_of_new hother]
      | some other => rw [Data.restrictMembers_cons_of_declared hother, Data.member?, if_neg hkey]

theorem present?_restrict {fields : Schema} {name : String} {field : Field}
    (hfind : fields.find? name = some field) (members : List (String × Data)) :
    (Data.obj (Data.restrictMembers fields members)).present? name =
      ((Data.obj members).present? name).map (Data.restrictTo field.shape) := by
  rw [Data.present?, Data.present?, Data.get?, Data.get?, member?_restrictMembers hfind]
  cases Data.member? name members with
  | none => rfl
  | some value =>
    rw [Option.map_some, Option.filter_some, Option.filter_some, isNull_restrictTo]
    split <;> rfl

/-- An item looks like what is left of it. -/
theorem itemAlike_restrict {fields : Schema} (hfields : ∀ members,
    Alike fields (.obj members) ((Data.obj members).restrict fields)) (item : Data) :
    ItemAlike fields item (item.restrict fields) := by
  cases item with
  | null => exact .null
  | obj members => exact .object (hfields members)
  | bool _ | num _ | str _ | arr _ => exact .neither ⟨rfl, rfl⟩ ⟨rfl, rfl⟩

/-- A value looks like what is left of it. -/
theorem fieldAlike_restrict {field : Field} (hformed : field.WellFormed)
    (hbelow : ∀ below, field.shape = some below → ∀ members,
      Alike below (.obj members) ((Data.obj members).restrict below)) (value : Option Data) :
    field.Alike value (value.map (Data.restrictTo field.shape)) := by
  cases hobject : field.type.isObjectLike with
  | false =>
    rw [Field.shape_eq_none_of_wellFormed hformed hobject, show Data.restrictTo none = id from rfl,
      Option.map_id]
    exact .scalar hobject
  | true =>
    obtain ⟨below, hshape, -⟩ := Field.exists_shape_of_wellFormed hformed hobject
    have hbelow := hbelow below hshape
    rw [hshape]
    cases value with
    | none => exact .missing
    | some data =>
      cases htype : field.type with
      | scalar _ | choice _ =>
        rw [htype] at hobject
        cases hobject
      | object =>
        cases data with
        | obj members => exact .object htype hshape (hbelow members)
        | null | bool _ | num _ | str _ | arr _ => exact .notObject htype rfl rfl
      | objectArray =>
        cases data with
        | arr items =>
          refine .array htype hshape (by rw [Data.restrictItems_eq_map, List.length_map]) ?_
          intro i item other hitem hother
          rw [Data.restrictItems_eq_map, List.getElem?_map, hitem] at hother
          obtain rfl := Option.some.inj hother
          exact itemAlike_restrict hbelow item
        | null | bool _ | num _ | str _ | obj _ => exact .notArray htype rfl rfl

/-- An object looks like what is left of it. -/
theorem alike_restrict : ∀ fields : List (String × Field), WellFormed fields → ∀ members,
    Alike fields (.obj members) ((Data.obj members).restrict fields) := by
  refine Schema.induction_on_shapes fun fields ih hformed members => .object fun name field hmem => ?_
  have hfind := find?_eq_some_of_mem hformed.distinct hmem
  rw [present?_restrict hfind]
  refine fieldAlike_restrict (hformed.field hmem) (fun below hshape => ?_) _
  exact ih name field below hmem hshape ((Field.wellFormed_iff.mp (hformed.field hmem)).2 below hshape)

/-- What a well-formed schema does not declare may as well be left out before validation. -/
theorem validate_restrict (hformed : WellFormed schema) (members : List (String × Data)) :
    schema.validate ((Data.obj members).restrict schema) = schema.validate (.obj members) :=
  (validate_of_alike (alike_restrict schema hformed members)).symm

end Schema

end InvoiceXml
