import InvoiceXml.Proofs.Definition

/-!
# One definition

What a definition written as an object must be like for a field to be read from it, the definitions
in its shape apart (`FieldDefinition.IsWellFormed`): each attribute is known, given once, and has a
value of its kind; the type is there; a shape is there exactly if the type needs one.

* `exists_ofData_iff`: which definitions say something about a field;
* `exists_field_iff`, `field_eq_error`: when they give a field, and what the error is otherwise;
* `exists_readField_iff`: a field is read exactly from a well-formed definition whose shape is read;
* `describes_of_readField`: the field has the type and the shape that its definition gives, and no
  transform.
-/

namespace InvoiceXml

/-! ### Well-formed definitions -/

/-- The type that data stands for. -/
def FieldType.ofData? (validators : Validators) : Data → Option FieldType
  | .str "object" => some .object
  | .str "object[]" => some .objectArray
  | .str name => (validators.find? name).map .scalar
  | .arr items => (items.mapM Record.text?).map .choice
  | _ => none

/-- Whether data is a text or a truth value, as an extra must be. -/
def Data.IsExtra (data : Data) : Prop := (∃ text, data = .str text) ∨ ∃ flag, data = .bool flag

namespace Attribute

/-- The name of an attribute, and its alias if it has one. -/
def spellings : Attribute → List String
  | extras => ["additional_xml", "additionalXml"]
  | fallback => ["default_value", "defaultValue"]
  | attr => [attr.name]

/-- The value that a definition gives to an attribute. -/
def given? (attr : Attribute) (members : List (String × Data)) : Option Data :=
  (members.find? fun member => member.1 ∈ attr.spellings).map (·.2)

/-- Whether data is of the kind that an attribute has; null is of every kind but that of a type. -/
def Admits (validators : Validators) : Attribute → Data → Prop
  | type, data => (FieldType.ofData? validators data).isSome = true
  | fallback, _ => True
  | _, .null => True
  | required, .bool _ => True
  | key, .str _ | group, .str _ | sibling, .str _ | xpath, .str _ => True
  | extras, .obj entries => ∀ path data, (path, data) ∈ entries → data.IsExtra
  | shape, .obj _ => True
  | _, _ => False

end Attribute

namespace FieldDefinition

/-- The type that a definition gives. -/
def typeOf? (validators : Validators) : Data → Option FieldType
  | .obj members => (Attribute.type.given? members).bind (FieldType.ofData? validators)
  | _ => none

/-- The definitions in the shape that a definition gives. -/
def shapeOf? : Data → Option (List (String × Data))
  | .obj members => (Attribute.shape.given? members).bind members?
  | _ => none

/-- Whether a field can be read from a definition, if the definitions in its shape can be. -/
structure IsWellFormed (validators : Validators) (members : List (String × Data)) : Prop where
  known : ∀ key value, (key, value) ∈ members →
    ∃ attr : Attribute, key ∈ attr.spellings ∧ attr.Admits validators value
  once : ∀ attr : Attribute, members.countP (fun member => member.1 ∈ attr.spellings) ≤ 1
  typed : ∃ type, typeOf? validators (.obj members) = some type ∧
    type.isObjectLike = (shapeOf? (.obj members)).isSome

/-- Whether a field is what a definition says, the fields in its shape apart. -/
structure Describes (validators : Validators) (data : Data) (field : Field) : Prop where
  type : typeOf? validators data = some field.type
  names : field.shape.map Schema.names = (shapeOf? data).map (List.map (·.1))
  shaped : field.shape.isSome = field.type.isObjectLike
  transform : field.transform = none

end FieldDefinition

/-! ### Outcomes, related options and members -/

theorem exists_map_eq_ok {ε α β : Type} {run : Except ε α} {f : α → β} :
    (∃ b, run.map f = .ok b) ↔ ∃ a, run = .ok a := by
  cases run <;> simp [Except.map]

section Relation

variable {α β : Type} {r : α → β → Prop} {b : Option β}

theorem isSome_eq_of_rel {a : Option α} (h : Option.Rel r a b) : a.isSome = b.isSome := by cases h <;> rfl

theorem eq_none_of_rel (h : Option.Rel r none b) : b = none := by
  cases h
  rfl

theorem exists_eq_some_of_rel {a : α} (h : Option.Rel r (some a) b) :
    ∃ found, b = some found ∧ r a found := by
  cases h with
  | some h => exact ⟨_, rfl, h⟩

end Relation

theorem forall_members_cons {α : Type} {P : String → α → Prop} {name : String} {first : α}
    {rest : List (String × α)} :
    (∀ key value, (key, value) ∈ (name, first) :: rest → P key value) ↔
      P name first ∧ ∀ key value, (key, value) ∈ rest → P key value := by
  constructor
  · exact fun h =>
      ⟨h name first List.mem_cons_self, fun key value hmem => h key value (List.mem_cons_of_mem _ hmem)⟩
  · rintro ⟨hfirst, hrest⟩ key value hmem
    rcases List.mem_cons.mp hmem with heq | hmem
    · obtain ⟨rfl, rfl⟩ := Prod.mk.inj heq
      exact hfirst
    · exact hrest key value hmem

/-! ### Attributes and their names -/

/-- Data that stands for a type has the form of one. -/
theorem isSome_ofData? {validators : Validators} {data : Data}
    (h : (FieldType.ofData? validators data).isSome = true) :
    (TypeForm.ofData? data).isSome = true := by
  cases data with
  | str name => rfl
  | arr items =>
    simp only [FieldType.ofData?, TypeForm.ofData?, Option.isSome_map] at h ⊢
    exact h
  | null | bool _ | num _ | obj _ => cases h

namespace Attribute

theorem ofName?_eq_some_iff {key : String} {attr : Attribute} :
    ofName? key = some attr ↔ key ∈ attr.spellings := by
  constructor
  · intro h
    unfold ofName? at h
    split at h
    · obtain rfl := Option.some.inj h
      simp [spellings]
    · obtain rfl := Option.some.inj h
      simp [spellings]
    · have hname : decide (attr.name = key) = true :=
        List.find?_some (p := fun attr : Attribute => attr.name = key) h
      obtain rfl := of_decide_eq_true hname
      cases attr <;> simp [spellings, name]
  · intro h
    cases attr <;> simp only [spellings, name, List.mem_cons, List.not_mem_nil, or_false] at h
    case extras | fallback => rcases h with rfl | rfl <;> rfl
    all_goals
      obtain rfl := h
      rfl

/-- An attribute that is given has its value among the members. -/
theorem exists_mem_of_given? {attr : Attribute} {members : List (String × Data)} {value : Data}
    (h : attr.given? members = some value) : ∃ key ∈ attr.spellings, (key, value) ∈ members := by
  obtain ⟨member, hfind, rfl⟩ := Option.map_eq_some_iff.mp h
  have hkey := List.find?_some (p := fun member : String × Data => member.1 ∈ attr.spellings) hfind
  exact ⟨member.1, of_decide_eq_true hkey, List.mem_of_find?_eq_some hfind⟩

theorem given?_cons (attr : Attribute) (key : String) (value : Data) (rest : List (String × Data)) :
    attr.given? ((key, value) :: rest) = if key ∈ attr.spellings then some value else attr.given? rest := by
  by_cases h : key ∈ attr.spellings <;> simp [given?, h]

/-- What is given once is given. -/
theorem given?_eq_some_of_mem {attr : Attribute} {members : List (String × Data)} {key : String}
    {value : Data} (honce : members.countP (fun member => member.1 ∈ attr.spellings) ≤ 1)
    (hkey : key ∈ attr.spellings) (hmem : (key, value) ∈ members) :
    attr.given? members = some value := by
  induction members with
  | nil => cases hmem
  | cons head rest ih =>
    obtain ⟨other, found⟩ := head
    rw [given?_cons]
    rw [List.countP_cons] at honce
    rcases List.mem_cons.mp hmem with heq | hmem
    · obtain ⟨rfl, rfl⟩ := Prod.mk.inj heq
      rw [if_pos hkey]
    · have hrest : 0 < rest.countP fun member => member.1 ∈ attr.spellings :=
        List.countP_pos_iff.mpr ⟨_, hmem, decide_eq_true hkey⟩
      -- the member that is given stands further on, so this one has another name
      have hother : other ∉ attr.spellings := by
        intro hother
        simp only [hother, decide_true, if_true] at honce
        omega
      rw [if_neg hother]
      exact ih (by omega) hmem

/-- The kinds of values, where the type must be known and the extras must be fixed. -/
theorem admits_iff {validators : Validators} {attr : Attribute} {data : Data} :
    attr.Admits validators data ↔ attr.fault? data = none ∧
      (attr = type → (FieldType.ofData? validators data).isSome = true) ∧
        (attr = extras → ∀ entries, data = .obj entries →
          ∀ path value, (path, value) ∈ entries → value.IsExtra) := by
  cases attr with
  | type =>
    simp only [Admits, fault?, forall_const, reduceCtorEq, false_implies, and_true]
    refine ⟨fun h => ⟨if_pos (isSome_ofData? h), h⟩, And.right⟩
  | required | key | group | sibling | xpath | fallback | shape =>
    cases data <;> simp [Admits, fault?, flagFault?, textFault?, objectFault?]
  | extras => cases data <;> simp [Admits, fault?, objectFault?]

end Attribute

namespace FieldDefinition

variable {validators : Validators} {path : FieldPath} {members : List (String × Data)}

/-! ### Reading the attributes -/

theorem exists_attributesOf_iff {seen : List Attribute} :
    (∃ given, attributesOf seen members = .ok given) ↔
      (∀ key value, (key, value) ∈ members →
        ∃ attr : Attribute, key ∈ attr.spellings ∧ attr.fault? value = none) ∧
        ∀ attr : Attribute,
          members.countP (fun member => member.1 ∈ attr.spellings) ≤ if attr ∈ seen then 0 else 1 := by
  induction members generalizing seen with
  | nil => simp [attributesOf]
  | cons head rest ih =>
    obtain ⟨key, value⟩ := head
    rw [attributesOf]
    cases hname : Attribute.ofName? key with
    | none =>
      refine iff_of_false nofun fun h => ?_
      obtain ⟨attr, hkey, -⟩ := h.1 key value List.mem_cons_self
      rw [Attribute.ofName?_eq_some_iff.mpr hkey] at hname
      cases hname
    | some attr =>
      have hkey : ∀ other : Attribute, key ∈ other.spellings ↔ attr = other := fun other => by
        rw [← Attribute.ofName?_eq_some_iff, hname, Option.some.injEq]
      simp only [List.countP_cons, hkey, decide_eq_true_eq]
      by_cases hseen : attr ∈ seen
      · rw [if_pos hseen]
        refine iff_of_false nofun fun h => ?_
        have hcount := h.2 attr
        rw [if_pos rfl, if_pos hseen] at hcount
        omega
      · rw [if_neg hseen]
        cases hfault : attr.fault? value with
        | some fault =>
          refine iff_of_false nofun fun h => ?_
          obtain ⟨other, hother, hnone⟩ := h.1 key value List.mem_cons_self
          rw [← (hkey other).mp hother, hfault] at hnone
          cases hnone
        | none =>
          have hhead : ∃ attr : Attribute, key ∈ attr.spellings ∧ attr.fault? value = none :=
            ⟨attr, (hkey attr).mpr rfl, hfault⟩
          rw [exists_map_eq_ok, ih, forall_members_cons, and_iff_right hhead]
          refine and_congr_right' (forall_congr' fun other => ?_)
          by_cases hother : attr = other
          · subst hother
            simp [hseen]
          · simp [hother, Ne.symm hother]

theorem lookup_attributesOf {seen : List Attribute} {given : List (Attribute × Data)}
    (h : attributesOf seen members = .ok given) (attr : Attribute) :
    given.lookup attr = attr.given? members := by
  induction members generalizing seen given with
  | nil =>
    obtain rfl := Except.ok.inj h
    rfl
  | cons head rest ih =>
    obtain ⟨key, value⟩ := head
    rw [attributesOf] at h
    split at h
    · cases h
    · rename_i first hname
      split at h
      · cases h
      · split at h
        · cases h
        · cases hothers : attributesOf (first :: seen) rest with
          | error fault =>
            rw [hothers] at h
            cases h
          | ok others =>
            rw [hothers] at h
            obtain rfl := Except.ok.inj h
            have hkey : key ∈ attr.spellings ↔ first = attr := by
              rw [← Attribute.ofName?_eq_some_iff, hname, Option.some.injEq]
            rw [Attribute.given?_cons, ← ih hothers, List.lookup_cons]
            by_cases hattr : first = attr
            · simp [hkey, hattr]
            · have hbeq : (attr == first) = false := beq_false_of_ne (Ne.symm hattr)
              simp [hkey, hattr, hbeq]

/-- What is said about a field has the type and the extras that are given. -/
theorem type_and_extras_of_ofData {definition : FieldDefinition}
    (h : ofData (.obj members) = .ok definition) :
    (Attribute.type.given? members).bind TypeForm.ofData? = some definition.type ∧
      definition.extras = (Attribute.extras.given? members).bind members? := by
  obtain ⟨given, hgiven, h⟩ := bind_eq_ok.mp h
  rw [attributes] at hgiven
  rw [ofAttributes, lookup_attributesOf hgiven] at h
  split at h
  · cases h
  · rename_i type htype
    obtain rfl := Except.ok.inj h
    refine ⟨htype, ?_⟩
    change (Attribute.extras.value? given).bind members? = _
    rw [Attribute.value?, lookup_attributesOf hgiven]
    cases Attribute.extras.given? members with
    | none => rfl
    | some value => cases value <;> rfl

/-- Something is said about a field if all attributes are known, given once, and of the right form,
and one is the type. -/
theorem exists_ofData_iff :
    (∃ definition, ofData (.obj members) = .ok definition) ↔
      (∀ key value, (key, value) ∈ members →
        ∃ attr : Attribute, key ∈ attr.spellings ∧ attr.fault? value = none) ∧
        (∀ attr : Attribute, members.countP (fun member => member.1 ∈ attr.spellings) ≤ 1) ∧
          ((Attribute.type.given? members).bind TypeForm.ofData?).isSome = true := by
  have hread : (∃ given, attributesOf [] members = .ok given) ↔ _ := exists_attributesOf_iff
  simp only [List.not_mem_nil, if_false] at hread
  rw [← and_assoc, ← hread]
  constructor
  · rintro ⟨definition, h⟩
    obtain ⟨given, hgiven, -⟩ := bind_eq_ok.mp h
    rw [(type_and_extras_of_ofData h).1]
    exact ⟨⟨given, hgiven⟩, rfl⟩
  · rintro ⟨⟨given, hgiven⟩, htype⟩
    obtain ⟨type, htype⟩ := Option.isSome_iff_exists.mp htype
    rw [ofData, attributes, hgiven]
    change ∃ definition, ofAttributes given = .ok definition
    rw [ofAttributes, lookup_attributesOf hgiven, htype]
    exact ⟨_, rfl⟩

/-! ### Types and extras -/

theorem typeOf_name {name : String} (hobject : name ≠ "object") (harray : name ≠ "object[]") :
    typeOf validators path (.name name) = match validators.find? name with
      | some validator => .ok (.scalar validator)
      | none => .error (.unknownValidator name path.render) :=
  typeOf.eq_4 validators path name hobject harray

theorem ofData?_str {name : String} (hobject : name ≠ "object") (harray : name ≠ "object[]") :
    FieldType.ofData? validators (.str name) = (validators.find? name).map .scalar :=
  FieldType.ofData?.eq_3 validators name hobject harray

/-- The type of a field is the one that the data stands for. -/
theorem typeOf_eq_ok_iff {data : Data} {form : TypeForm} (hform : TypeForm.ofData? data = some form)
    {type : FieldType} :
    typeOf validators path form = .ok type ↔ FieldType.ofData? validators data = some type := by
  cases data with
  | str name =>
    obtain rfl := Option.some.inj hform
    by_cases hobject : name = "object"
    · subst hobject
      simp [typeOf, FieldType.ofData?]
    · by_cases harray : name = "object[]"
      · subst harray
        simp [typeOf, FieldType.ofData?]
      · rw [typeOf_name hobject harray, ofData?_str hobject harray]
        cases validators.find? name <;> simp
  | arr items =>
    obtain ⟨texts, htexts, rfl⟩ := Option.map_eq_some_iff.mp hform
    simp [typeOf, FieldType.ofData?, htexts]
  | null | bool _ | num _ | obj _ => cases hform

/-- There is no type only where a validator is named that is not registered. -/
theorem typeOf_eq_error {data : Data} {form : TypeForm} (hform : TypeForm.ofData? data = some form)
    {error : SchemaError} (h : typeOf validators path form = .error error) :
    ∃ name, data = .str name ∧ name ≠ "object" ∧ name ≠ "object[]" ∧ validators.find? name = none ∧
      error = .unknownValidator name path.render := by
  cases data with
  | str name =>
    obtain rfl := Option.some.inj hform
    have hobject : name ≠ "object" := by
      rintro rfl
      cases h
    have harray : name ≠ "object[]" := by
      rintro rfl
      cases h
    rw [typeOf_name hobject harray] at h
    cases hfind : validators.find? name with
    | some validator =>
      rw [hfind] at h
      cases h
    | none =>
      rw [hfind] at h
      exact ⟨name, rfl, hobject, harray, hfind, (Except.error.inj h).symm⟩
  | arr items =>
    obtain ⟨texts, -, rfl⟩ := Option.map_eq_some_iff.mp hform
    cases h
  | null | bool _ | num _ | obj _ => cases hform

theorem exists_extrasOf_iff {entries : List (String × Data)} :
    (∃ extras, extrasOf entries = .ok extras) ↔ ∀ path data, (path, data) ∈ entries → data.IsExtra := by
  induction entries with
  | nil => simp [extrasOf]
  | cons head rest ih =>
    obtain ⟨path, data⟩ := head
    cases data with
    | str text =>
      rw [extrasOf, exists_map_eq_ok, ih, forall_members_cons, and_iff_right (.inl ⟨text, rfl⟩)]
    | bool flag =>
      rw [extrasOf, exists_map_eq_ok, ih, forall_members_cons, and_iff_right (.inr ⟨flag, rfl⟩)]
    | null | num _ | arr _ | obj _ =>
      refine iff_of_false (by simp [extrasOf]) fun h => ?_
      simpa [Data.IsExtra] using h path _ List.mem_cons_self

/-! ### The field of a definition -/

section Field

variable {definition : FieldDefinition} {shape : Except SchemaError (Option Schema)}

theorem of_field_eq_ok {field : Field} (h : definition.field validators path shape = .ok field) :
    typeOf validators path definition.type = .ok field.type ∧ shape = .ok field.shape ∧
      field.type.isObjectLike = field.shape.isSome ∧ field.transform = none ∧
        ∀ entries, definition.extras = some entries → ∃ extras, extrasOf entries = .ok extras := by
  obtain ⟨type, htype, h⟩ := bind_eq_ok.mp h
  obtain ⟨found, hfound, h⟩ := bind_eq_ok.mp h
  split at h
  · cases h
  · rename_i hfits
    cases hentries : definition.extras with
    | none =>
      simp only [hentries] at h
      obtain rfl := Except.ok.inj h
      exact ⟨htype, hfound, not_ne_iff.mp hfits, rfl, nofun⟩
    | some entries =>
      simp only [hentries] at h
      obtain ⟨extras, hextras, h⟩ := bind_eq_ok.mp h
      obtain rfl := Except.ok.inj h
      refine ⟨htype, hfound, not_ne_iff.mp hfits, rfl, fun _ heq => ?_⟩
      obtain rfl := Option.some.inj heq
      cases hread : extrasOf entries with
      | ok extras => exact ⟨extras, rfl⟩
      | error fault =>
        rw [hread] at hextras
        cases hextras

/-- A definition gives a field if its type is known, its shape is read and fits, and its extras are fixed. -/
theorem exists_field_iff :
    (∃ field, definition.field validators path shape = .ok field) ↔
      ∃ type found, typeOf validators path definition.type = .ok type ∧ shape = .ok found ∧
        type.isObjectLike = found.isSome ∧
          ∀ entries, definition.extras = some entries → ∃ extras, extrasOf entries = .ok extras := by
  constructor
  · rintro ⟨field, h⟩
    obtain ⟨htype, hshape, hfits, -, hextras⟩ := of_field_eq_ok h
    exact ⟨_, _, htype, hshape, hfits, hextras⟩
  · rintro ⟨type, found, htype, rfl, hfits, hextras⟩
    rw [field, htype]
    change ∃ field, (if type.isObjectLike ≠ found.isSome then _ else _) = Except.ok field
    rw [if_neg (not_ne_iff.mpr hfits)]
    cases hentries : definition.extras with
    | none => exact ⟨_, rfl⟩
    | some entries =>
      obtain ⟨extras, hread⟩ := hextras entries hentries
      simp only [hread]
      exact ⟨_, rfl⟩

/-- A definition that gives no field names an unknown validator, has a shape that is not read, or
has a fault. -/
theorem field_eq_error {error : SchemaError} (h : definition.field validators path shape = .error error) :
    typeOf validators path definition.type = .error error ∨ shape = .error error ∨
      ∃ fault, error = .format fault := by
  cases htype : typeOf validators path definition.type with
  | error fault =>
    rw [field, htype] at h
    obtain rfl := Except.error.inj h
    exact .inl rfl
  | ok type =>
    cases shape with
    | error fault =>
      rw [field, htype] at h
      obtain rfl := Except.error.inj h
      exact .inr (.inl rfl)
    | ok found =>
      refine .inr (.inr ?_)
      rw [field, htype] at h
      change (if type.isObjectLike ≠ found.isSome then _ else _) = _ at h
      split at h
      · exact ⟨_, (Except.error.inj h).symm⟩
      · cases hentries : definition.extras with
        | none =>
          simp only [hentries] at h
          cases h
        | some entries =>
          cases hread : extrasOf entries with
          | ok extras =>
            simp only [hentries, hread] at h
            cases h
          | error fault =>
            simp only [hentries, hread] at h
            exact ⟨_, (Except.error.inj h).symm⟩

end Field

/-! ### Reading a definition -/

theorem readShape_eq :
    readShape validators path members = match shapeOf? (.obj members) with
      | some shape => (readFields validators path shape).map some
      | none => .ok none := by
  induction members with
  | nil => rfl
  | cons head rest ih =>
    obtain ⟨key, value⟩ := head
    rw [readShape, shapeOf?, Attribute.given?_cons, show Attribute.shape.spellings =
      [Attribute.shape.name] from rfl]
    by_cases hkey : key = Attribute.shape.name
    · rw [if_pos hkey, if_pos (List.mem_singleton.mpr hkey)]
      cases value <;> simp [readFieldsOf, members?]
    · rw [if_neg hkey, if_neg (mt List.mem_singleton.mp hkey), ih, shapeOf?]

/-- A shape is read if one is given, and it is what is read from the definitions in it. -/
theorem readShape_eq_ok_iff {found : Option Schema} :
    readShape validators path members = .ok found ↔
      Option.Rel (fun shape fields => readFields validators path shape = .ok fields) (shapeOf? (.obj members))
        found := by
  rw [readShape_eq]
  cases shapeOf? (.obj members) with
  | none =>
    constructor
    · rintro ⟨⟩
      exact .none
    · rintro ⟨⟩
      rfl
  | some shape =>
    constructor
    · intro h
      cases hread : readFields validators path shape with
      | error error =>
        simp only [hread] at h
        cases h
      | ok fields =>
        simp only [hread] at h
        obtain rfl := Except.ok.inj h
        exact .some hread
    · intro h
      cases h with
      | some hread => simp only [hread, Except.map]

theorem readShape_eq_error {error : SchemaError} (h : readShape validators path members = .error error) :
    ∃ shape, shapeOf? (.obj members) = some shape ∧ readFields validators path shape = .error error := by
  rw [readShape_eq] at h
  cases hgives : shapeOf? (.obj members) with
  | none =>
    simp only [hgives] at h
    cases h
  | some shape =>
    cases hread : readFields validators path shape with
    | ok fields =>
      simp only [hgives, hread] at h
      cases h
    | error fault =>
      simp only [hgives, hread] at h
      obtain rfl := Except.error.inj h
      exact ⟨shape, rfl, hread⟩

/-- A definition is read if it says something about a field and gives one. -/
theorem readField_obj_eq_ok_iff {field : Field} :
    readField validators path (.obj members) = .ok field ↔
      ∃ definition, ofData (.obj members) = .ok definition ∧
        definition.field validators path (readShape validators path members) = .ok field := by
  rw [readField, bind_eq_ok]
  refine exists_congr fun definition => and_congr_left fun _ => ?_
  cases ofData (.obj members) <;> simp [located]

theorem isWellFormed_of_ofData {definition : FieldDefinition} {type : FieldType}
    (hdefinition : ofData (.obj members) = .ok definition)
    (htype : typeOf? validators (.obj members) = some type)
    (hfits : type.isObjectLike = (shapeOf? (.obj members)).isSome)
    (hextras : ∀ entries, definition.extras = some entries → ∃ extras, extrasOf entries = .ok extras) :
    IsWellFormed validators members := by
  obtain ⟨hknown, honce, -⟩ := exists_ofData_iff.mp ⟨definition, hdefinition⟩
  obtain ⟨given, hgiven, hmeant⟩ := Option.bind_eq_some_iff.mp htype
  refine ⟨fun key value hmem => ?_, honce, type, htype, hfits⟩
  obtain ⟨attr, hkey, hfault⟩ := hknown key value hmem
  have hvalue := Attribute.given?_eq_some_of_mem (honce attr) hkey hmem
  refine ⟨attr, hkey, Attribute.admits_iff.mpr ⟨hfault, ?_, ?_⟩⟩
  · rintro rfl
    obtain rfl : given = value := Option.some.inj (hgiven.symm.trans hvalue)
    rw [hmeant]
    rfl
  · rintro rfl entries rfl
    have hentries := (type_and_extras_of_ofData hdefinition).2
    rw [hvalue] at hentries
    exact exists_extrasOf_iff.mp (hextras entries hentries)

/-- The extras that a well-formed definition gives are texts and truth values. -/
theorem IsWellFormed.isExtra (h : IsWellFormed validators members) {entries : List (String × Data)}
    (hgiven : (Attribute.extras.given? members).bind members? = some entries) :
    ∀ path data, (path, data) ∈ entries → data.IsExtra := by
  obtain ⟨value, hvalue, hentries⟩ := Option.bind_eq_some_iff.mp hgiven
  obtain ⟨key, hkey, hmem⟩ := Attribute.exists_mem_of_given? hvalue
  obtain ⟨attr, hother, hadmits⟩ := h.known key value hmem
  obtain rfl : attr = .extras := by
    rw [← Attribute.ofName?_eq_some_iff] at hkey hother
    exact Option.some.inj (hother.symm.trans hkey)
  cases value with
  | obj found =>
    obtain rfl : found = entries := Option.some.inj hentries
    exact hadmits
  | null | bool _ | num _ | str _ | arr _ => cases hentries

/-- The field that is read from a definition. -/
theorem of_readField_eq_ok {field : Field} (h : readField validators path (.obj members) = .ok field) :
    IsWellFormed validators members ∧ typeOf? validators (.obj members) = some field.type ∧
      field.type.isObjectLike = field.shape.isSome ∧ field.transform = none ∧
        Option.Rel (fun shape fields => readFields validators path shape = .ok fields)
          (shapeOf? (.obj members)) field.shape := by
  obtain ⟨definition, hdefinition, hfield⟩ := readField_obj_eq_ok_iff.mp h
  obtain ⟨htype, hshape, hfits, htransform, hextras⟩ := of_field_eq_ok hfield
  obtain ⟨given, hgiven, hform⟩ := Option.bind_eq_some_iff.mp (type_and_extras_of_ofData hdefinition).1
  have hmeant : typeOf? validators (.obj members) = some field.type := by
    rw [typeOf?, hgiven]
    exact (typeOf_eq_ok_iff hform).mp htype
  have hrel := readShape_eq_ok_iff.mp hshape
  have hgiven := hfits.trans (isSome_eq_of_rel hrel).symm
  exact ⟨isWellFormed_of_ofData hdefinition hmeant hgiven hextras, hmeant, hfits, htransform, hrel⟩

/-- **A field is read** exactly from a well-formed definition whose shape is read. -/
theorem exists_readField_iff :
    (∃ field, readField validators path (.obj members) = .ok field) ↔
      IsWellFormed validators members ∧
        ∀ shape, shapeOf? (.obj members) = some shape →
          ∃ fields, readFields validators path shape = .ok fields := by
  constructor
  · rintro ⟨field, h⟩
    obtain ⟨hformed, -, -, -, hrel⟩ := of_readField_eq_ok h
    refine ⟨hformed, fun shape hgives => ?_⟩
    rw [hgives] at hrel
    obtain ⟨fields, -, hread⟩ := exists_eq_some_of_rel hrel
    exact ⟨fields, hread⟩
  · rintro ⟨hformed, hbelow⟩
    -- what the attributes say, the type that is meant and the shape that is read: a field needs no more
    obtain ⟨type, htype, hfits⟩ := hformed.typed
    obtain ⟨given, hgiven, hmeant⟩ := Option.bind_eq_some_iff.mp htype
    obtain ⟨form, hform⟩ := Option.isSome_iff_exists.mp (isSome_ofData? (Option.isSome_of_eq_some hmeant))
    have hknown : ∀ key value, (key, value) ∈ members →
        ∃ attr : Attribute, key ∈ attr.spellings ∧ attr.fault? value = none := by
      intro key value hmem
      obtain ⟨attr, hkey, hadmits⟩ := hformed.known key value hmem
      exact ⟨attr, hkey, (Attribute.admits_iff.mp hadmits).1⟩
    have hnamed : (Attribute.type.given? members).bind TypeForm.ofData? = some form := by
      rw [hgiven, Option.bind_some, hform]
    obtain ⟨definition, hdefinition⟩ :=
      exists_ofData_iff.mpr ⟨hknown, hformed.once, Option.isSome_of_eq_some hnamed⟩
    obtain ⟨htyped, hextras⟩ := type_and_extras_of_ofData hdefinition
    obtain rfl : form = definition.type := Option.some.inj (hnamed.symm.trans htyped)
    obtain ⟨found, hfound⟩ : ∃ found, readShape validators path members = .ok found := by
      simp only [readShape_eq_ok_iff]
      cases hgives : shapeOf? (.obj members) with
      | none => exact ⟨none, .none⟩
      | some shape =>
        obtain ⟨fields, hread⟩ := hbelow shape hgives
        exact ⟨some fields, .some hread⟩
    have hsome := isSome_eq_of_rel (readShape_eq_ok_iff.mp hfound)
    obtain ⟨field, hfield⟩ := exists_field_iff.mpr
      ⟨type, found, (typeOf_eq_ok_iff hform).mpr hmeant, hfound, hfits.trans hsome, fun entries hentries => by
        rw [hextras] at hentries
        exact exists_extrasOf_iff.mpr (hformed.isExtra hentries)⟩
    exact ⟨field, readField_obj_eq_ok_iff.mpr ⟨definition, hdefinition, hfield⟩⟩

/-- A definition from which no field is read has a fault, names a validator that is not registered,
or has a shape that is not read. -/
theorem readField_eq_error {error : SchemaError}
    (h : readField validators path (.obj members) = .error error) :
    (∃ fault, error = .format fault) ∨
      (∃ name, Attribute.type.given? members = some (.str name) ∧ name ≠ "object" ∧ name ≠ "object[]" ∧
        validators.find? name = none ∧ error = .unknownValidator name path.render) ∨
      ∃ shape, shapeOf? (.obj members) = some shape ∧ readFields validators path shape = .error error := by
  rw [readField] at h
  cases hdefinition : ofData (.obj members) with
  | error fault =>
    rw [hdefinition] at h
    exact .inl ⟨_, (Except.error.inj h).symm⟩
  | ok definition =>
    rw [hdefinition] at h
    rcases field_eq_error h with htype | hshape | hfault
    · obtain ⟨given, hgiven, hform⟩ := Option.bind_eq_some_iff.mp (type_and_extras_of_ofData hdefinition).1
      obtain ⟨name, rfl, hunknown⟩ := typeOf_eq_error hform htype
      exact .inr (.inl ⟨name, hgiven, hunknown⟩)
    · exact .inr (.inr (readShape_eq_error hshape))
    · exact .inl hfault

end FieldDefinition

end InvoiceXml
