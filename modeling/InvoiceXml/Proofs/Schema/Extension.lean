import InvoiceXml.Proofs.Schema.WellFormed

/-!
# Extended schemas

A schema extends another if it declares the same fields in the same order and others between them:
its own fields are related to those of the other, and the added ones are of a certain form
(`Schema.FieldsExtend`). So it is at every depth. What two fields must have in common, and what may
be added, are parameters.

* `fieldsExtend_refl` and `fieldsExtend_trans`: a schema extends itself, and extensions can be
  extended;
* **`fieldsExtend_merge`**: a layer extends the schema that it is declared over, if overriding a
  field keeps it related and new fields may be added.

`FieldsExtend` recurses on the extended schema, whose fields are kept or added one by one.
-/

namespace InvoiceXml

/-- Whether two types are both objects, both arrays of objects, or both scalars. -/
def FieldType.isSameKind : FieldType → FieldType → Bool
  | object, object => true
  | objectArray, objectArray => true
  | scalar _, other | choice _, other => !other.isObjectLike
  | object, _ | objectArray, _ => false

namespace FieldType

theorem isSameKind_self (type : FieldType) : type.isSameKind type = true := by
  cases type <;> rfl

theorem isObjectLike_of_isSameKind {type other : FieldType} (h : type.isSameKind other = true) :
    type.isObjectLike = other.isObjectLike := by
  cases type <;> cases other <;> simp_all [isSameKind, isObjectLike]

/-- Objects and arrays of objects are of no kind but their own. -/
theorem eq_of_isSameKind {type other : FieldType} (h : type.isSameKind other = true)
    (hobject : other.isObjectLike = true) : type = other := by
  cases type <;> cases other <;> simp_all [isSameKind, isObjectLike]

theorem isSameKind_trans {lower middle upper : FieldType} (hlower : lower.isSameKind middle = true)
    (hupper : middle.isSameKind upper = true) : lower.isSameKind upper = true := by
  cases lower <;> cases middle <;> cases upper <;> simp_all [isSameKind, isObjectLike]

end FieldType

namespace Schema

/-- A layer under which every field keeps its kind leaves no shape behind. -/
theorem not_leavesShape_of_isSameKind {base layer : Schema}
    (h : ∀ old field, (some old, field) ∈ base.overlay layer → old.type.isSameKind field.type = true) :
    ¬LeavesShape base layer :=
  KeepsObjects.not_leavesShape fun old field hpair => FieldType.isObjectLike_of_isSameKind (h old field hpair)

section Relation

variable (related : Field → Field → Prop) (added : Field → Prop)

mutual

/-- Whether a field is related to another, and its shape extends that of the other. -/
def FieldExtends : Field → Field → Prop
  | base, { type, required, shape, key, group, sibling, xpath, extras, transform, fallback } =>
    related base { type, required, shape, key, group, sibling, xpath, extras, transform, fallback } ∧
      ShapeExtends base.shape shape

/-- Whether two fields both have no shape, or the shape of the one extends that of the other. -/
def ShapeExtends : Option Schema → Option (List (String × Field)) → Prop
  | none, none => True
  | some below, some fields => FieldsExtend below fields
  | none, some _ | some _, none => False

/-- Whether fields are those of a schema, in their order, with others added between them. -/
def FieldsExtend : Schema → List (String × Field) → Prop
  | base, [] => base = []
  | base, (name, field) :: rest =>
    (∃ old others, base = (name, old) :: others ∧ FieldExtends old field ∧ FieldsExtend others rest) ∨
      (added field ∧ FieldsExtend base rest)

end

end Relation

variable {related : Field → Field → Prop} {added : Field → Prop}

theorem fieldExtends_iff {base field : Field} :
    FieldExtends related added base field ↔
      related base field ∧ ShapeExtends related added base.shape field.shape := by
  cases field
  exact Iff.rfl

theorem shapeExtends_iff {base shape : Option Schema} :
    ShapeExtends related added base shape ↔
      (base = none ∧ shape = none) ∨
        ∃ below fields, base = some below ∧ shape = some fields ∧
          FieldsExtend related added below fields := by
  cases base <;> cases shape <;> simp [ShapeExtends]

/-- The names of a schema stand in their order in one that extends it. -/
theorem names_sublist_of_fieldsExtend {base fields : Schema} (h : FieldsExtend related added base fields) :
    (base.map (·.1)).Sublist (fields.map (·.1)) := by
  induction fields generalizing base with
  | nil =>
    obtain rfl : base = [] := h
    exact List.Sublist.refl []
  | cons head rest ih =>
    obtain ⟨name, field⟩ := head
    rcases h with ⟨old, others, rfl, -, h⟩ | ⟨-, h⟩
    · exact (ih h).cons_cons name
    · exact (ih h).cons name

/-! ### Extensions of extensions -/

mutual

theorem fieldExtends_refl (hrelated : ∀ field, related field field) :
    ∀ field : Field, FieldExtends related added field field
  | { shape, .. } => fieldExtends_iff.mpr ⟨hrelated _, shapeExtends_refl hrelated shape⟩

theorem shapeExtends_refl (hrelated : ∀ field, related field field) :
    ∀ shape : Option (List (String × Field)), ShapeExtends related added shape shape
  | none => trivial
  | some fields => fieldsExtend_refl hrelated fields

/-- Fields extend themselves. -/
theorem fieldsExtend_refl (hrelated : ∀ field, related field field) :
    ∀ fields : List (String × Field), FieldsExtend related added fields fields
  | [] => rfl
  | (_, field) :: rest =>
    .inl ⟨field, rest, rfl, fieldExtends_refl hrelated field, fieldsExtend_refl hrelated rest⟩

end

mutual

theorem fieldExtends_trans
    (hrelated : ∀ lower middle upper, related lower middle → related middle upper → related lower upper)
    (hadded : ∀ middle upper, added middle → FieldExtends related added middle upper → added upper)
    {lower middle : Field} : ∀ {upper : Field}, FieldExtends related added lower middle →
      FieldExtends related added middle upper → FieldExtends related added lower upper
  | { shape, .. }, hlower, hupper => by
    obtain ⟨hlowerRelated, hlowerShape⟩ := fieldExtends_iff.mp hlower
    obtain ⟨hupperRelated, hupperShape⟩ := fieldExtends_iff.mp hupper
    exact fieldExtends_iff.mpr
      ⟨hrelated _ _ _ hlowerRelated hupperRelated, shapeExtends_trans hrelated hadded hlowerShape hupperShape⟩

theorem shapeExtends_trans
    (hrelated : ∀ lower middle upper, related lower middle → related middle upper → related lower upper)
    (hadded : ∀ middle upper, added middle → FieldExtends related added middle upper → added upper)
    {lower middle : Option Schema} : ∀ {upper : Option (List (String × Field))},
      ShapeExtends related added lower middle → ShapeExtends related added middle upper →
        ShapeExtends related added lower upper
  | none, hlower, hupper => by
    rcases shapeExtends_iff.mp hupper with ⟨rfl, -⟩ | ⟨_, _, -, hother, -⟩
    · exact hlower
    · cases hother
  | some fields, hlower, hupper => by
    rcases shapeExtends_iff.mp hupper with ⟨-, hother⟩ | ⟨between, found, rfl, hfound, hupper⟩
    · cases hother
    · obtain rfl := Option.some.inj hfound
      rcases shapeExtends_iff.mp hlower with ⟨-, hother⟩ | ⟨below, _, rfl, hbetween, hlower⟩
      · cases hother
      · obtain rfl := Option.some.inj hbetween
        exact fieldsExtend_trans hrelated hadded hlower hupper

/-- What extends an extension of a schema extends the schema. -/
theorem fieldsExtend_trans
    (hrelated : ∀ lower middle upper, related lower middle → related middle upper → related lower upper)
    (hadded : ∀ middle upper, added middle → FieldExtends related added middle upper → added upper)
    {lower middle : Schema} : ∀ {upper : List (String × Field)}, FieldsExtend related added lower middle →
      FieldsExtend related added middle upper → FieldsExtend related added lower upper
  | [], hlower, hupper => by
    obtain rfl : middle = [] := hupper
    exact hlower
  | (name, field) :: rest, hlower, hupper => by
    rcases hupper with ⟨between, others, rfl, hfield, hrest⟩ | ⟨hfield, hrest⟩
    · rcases hlower with ⟨old, below, rfl, hold, hbelow⟩ | ⟨hbetween, hbelow⟩
      · exact .inl ⟨old, below, rfl, fieldExtends_trans hrelated hadded hold hfield,
          fieldsExtend_trans hrelated hadded hbelow hrest⟩
      · exact .inr ⟨hadded _ _ hbetween hfield, fieldsExtend_trans hrelated hadded hbelow hrest⟩
    · exact .inr ⟨hfield, fieldsExtend_trans hrelated hadded hlower hrest⟩

end

/-! ### Layers -/

/-- Fields extend a schema whose names stand among theirs if each is that of the schema, extended,
or may be added. -/
theorem fieldsExtend_of_find? {base : Schema} {fields : List (String × Field)}
    (hnames : (base.map (·.1)).Sublist (fields.map (·.1))) (hdistinct : (fields.map (·.1)).Nodup)
    (hshared : ∀ name old field, (name, field) ∈ fields → base.find? name = some old →
      FieldExtends related added old field)
    (hnew : ∀ name field, (name, field) ∈ fields → base.find? name = none → added field) :
    FieldsExtend related added base fields := by
  induction fields generalizing base with
  | nil => exact List.map_eq_nil_iff.mp (List.sublist_nil.mp hnames)
  | cons head rest ih =>
    obtain ⟨name, field⟩ := head
    obtain ⟨hname, hrest⟩ := List.nodup_cons.mp hdistinct
    have hmem : ∀ {other found}, (other, found) ∈ rest → (other, found) ∈ (name, field) :: rest :=
      List.mem_cons_of_mem _
    cases hold : base.find? name with
    | none =>
      have hbelow : (base.map (·.1)).Sublist (rest.map (·.1)) := by
        rcases List.sublist_cons_iff.mp hnames with h | ⟨others, heq, -⟩
        · exact h
        · exact absurd (heq ▸ List.mem_cons_self) (find?_eq_none_iff.mp hold)
      exact .inr ⟨hnew name field List.mem_cons_self hold,
        ih hbelow hrest (fun other old found h => hshared other old found (hmem h))
          fun other found h => hnew other found (hmem h)⟩
    | some old =>
      -- the name is not among the others, so the schema starts with it
      rcases List.sublist_cons_iff.mp hnames with h | ⟨names, heq, hothers⟩
      · exact absurd (h.subset (List.mem_map_of_mem (f := (·.1)) (mem_of_find?_eq_some hold))) hname
      · obtain ⟨⟨other, first⟩, others, rfl, hother, rfl⟩ := List.map_eq_cons_iff.mp heq
        obtain rfl : other = name := hother
        obtain rfl : first = old := by
          rw [find?, if_pos rfl] at hold
          exact Option.some.inj hold
        have hskip : ∀ {later found}, (later, found) ∈ rest →
            find? later ((other, first) :: others) = find? later others := by
          intro later found h
          have hne : other ≠ later := fun heq => hname (heq ▸ List.mem_map_of_mem (f := (·.1)) h)
          rw [find?, if_neg hne]
        refine .inl ⟨first, others, rfl, hshared other first field List.mem_cons_self hold,
          ih hothers hrest ?_ ?_⟩
        · intro later old found h hfound
          exact hshared later old found (hmem h) (hskip h ▸ hfound)
        · intro later found h hnone
          exact hnew later found (hmem h) (hskip h ▸ hnone)

/-- **A layer extends what it is declared over.** Fields of both sides must be of one kind and stay
related when they are overridden, and fields that only the layer declares must be such as may be
added. -/
theorem fieldsExtend_merge (hrefl : ∀ field, related field field) : ∀ (layer : Schema) {base : Schema},
    WellFormed base → WellFormed layer →
    (∀ old field, (some old, field) ∈ base.overlay layer →
      old.type.isObjectLike = field.type.isObjectLike ∧ ∀ shape, related old (old.override field shape)) →
    (∀ field, (none, field) ∈ base.overlay layer → added field) →
    FieldsExtend related added base (base.merge layer) := by
  refine induction_on_shapes fun layer ih => ?_
  intro base hbase hlayer hshared hnew
  have hdistinct := nodup_names_merge layer hbase.distinct
  have hfind : ∀ {name field}, (name, field) ∈ base.merge layer →
      mergeField? (find? name base) (find? name layer) = some field := by
    intro name field hmem
    rw [← find?_merge name base hlayer.distinct]
    exact find?_eq_some_of_mem hdistinct hmem
  apply fieldsExtend_of_find? (names_sublist_merge base layer) hdistinct
  · intro name old field hmem hold
    have hmerged := hfind hmem
    rw [hold] at hmerged
    cases hadded : find? name layer with
    | none =>
      rw [hadded] at hmerged
      obtain rfl := Option.some.inj hmerged
      exact fieldExtends_refl hrefl old
    | some own =>
      rw [hadded] at hmerged
      obtain rfl := Option.some.inj hmerged
      have hmem := mem_of_find?_eq_some hadded
      have holdFormed := hbase.of_find? hold
      obtain ⟨hfits, -⟩ := Field.wellFormed_iff.mp holdFormed
      obtain ⟨hownFits, hownFormed⟩ := Field.wellFormed_iff.mp (hlayer.of_find? hadded)
      obtain ⟨hkind, hrelated⟩ := hshared old own (shared_mem_overlay hmem hold)
      have hshape := shape_mergeField_of_isObjectLike_eq hfits hownFits hkind
      refine fieldExtends_iff.mpr ⟨mergeField_eq_override old own ▸ hrelated _, ?_⟩
      cases hobject : own.type.isObjectLike with
      | false =>
        have hnone : old.shape = none := hfits.shape_eq_none (hkind.trans hobject)
        rw [hobject] at hshape
        exact shapeExtends_iff.mpr (.inl ⟨hnone, hshape⟩)
      | true =>
        obtain ⟨below, hbelow⟩ := hfits.exists_shape (hkind.trans hobject)
        obtain ⟨fields, hfields⟩ := hownFits.exists_shape hobject
        have hformed := WellFormed.shape_getD holdFormed
        have hoverlay : ∀ pair, pair ∈ overlay below fields → pair ∈ base.overlay layer := by
          intro pair hpair
          apply below_mem_overlay hmem hold
          rwa [overlayBelow_of_shape hfields, hbelow]
        rw [if_pos hobject, hbelow, hfields, Option.getD_some, Option.getD_some] at hshape
        rw [hbelow, Option.getD_some] at hformed
        have hfieldsExtend := ih name own fields hmem hfields hformed (hownFormed fields hfields)
          (fun old field h => hshared old field (hoverlay _ h)) fun field h => hnew field (hoverlay _ h)
        exact shapeExtends_iff.mpr (.inr ⟨below, _, hbelow, hshape, hfieldsExtend⟩)
  · intro name field hmem hnone
    have hmerged := hfind hmem
    rw [hnone, mergeField?_none_left] at hmerged
    exact hnew field (new_mem_overlay (mem_of_find?_eq_some hmerged) hnone)

end Schema

end InvoiceXml
