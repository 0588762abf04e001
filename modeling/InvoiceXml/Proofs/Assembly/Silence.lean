import InvoiceXml.Assembly.Plan
import InvoiceXml.Proofs.Schema.Group

/-!
# Fields that leave no trace

A field without a value leaves no trace in a document if it is silent: a scalar without a fallback,
an array, or an object without a path whose fields are silent, too (`Field.IsSilent`). Two fields
place their values alike if they are of one kind and agree in all that planning reads of them
(`Field.SamePlace`).

Data omits what a layer adds when it has no entries for it but for null, at every depth
(`Assembly.Omits`); `omits_merge` says that it then omits what the merged schema has besides.
-/

namespace InvoiceXml

open Schema (WellFormed)

/-! ### Fields in the same place -/

/-- Whether two fields are of one kind and agree in all that says where their values are placed and how. -/
structure Field.SamePlace (field other : Field) : Prop where
  kind : field.type.isSameKind other.type = true
  group : field.group = other.group
  sibling : field.sibling = other.sibling
  xpath : field.xpath = other.xpath
  extras : field.extras = other.extras
  transform : field.transform = other.transform
  fallback : field.fallback = other.fallback

/-- Whether a layer of a field is of its kind, and leaves open or says the same about where and how
its value is placed. -/
structure Field.StaysUnder (field layer : Field) : Prop where
  kind : field.type.isSameKind layer.type = true
  group : layer.group = none ∨ layer.group = field.group
  sibling : layer.sibling = none ∨ layer.sibling = field.sibling
  xpath : layer.xpath = none ∨ layer.xpath = field.xpath
  extras : layer.extras = none ∨ layer.extras = field.extras
  transform : layer.transform = none ∨ layer.transform = field.transform
  fallback : layer.fallback = none ∨ layer.fallback = field.fallback

namespace Field

theorem samePlace_refl (field : Field) : field.SamePlace field :=
  ⟨field.type.isSameKind_self, rfl, rfl, rfl, rfl, rfl, rfl⟩

theorem eq_or_of_open {α : Type} {layer base : Option α} (h : layer = none ∨ layer = base) :
    base = layer.or base := by
  rcases h with rfl | rfl
  · rfl
  · exact Option.or_self.symm

/-- A field that stays under a layer is in the same place as the field under the layer. -/
theorem StaysUnder.samePlace {base layer : Field} (h : base.StaysUnder layer) (shape : Option Schema) :
    base.SamePlace (base.override layer shape) where
  kind := h.kind
  group := eq_or_of_open h.group
  sibling := eq_or_of_open h.sibling
  xpath := eq_or_of_open h.xpath
  extras := eq_or_of_open h.extras
  transform := eq_or_of_open h.transform
  fallback := eq_or_of_open h.fallback

theorem SamePlace.sameGroup {field other : Field} (h : field.SamePlace other) :
    Schema.SameGroup field other := by
  refine ⟨?_, h.sibling⟩
  have hkind := h.kind
  rw [boundGroup?, boundGroup?, h.group]
  cases htype : field.type <;> cases hother : other.type <;> rw [htype, hother] at hkind <;>
    first | rfl | cases hkind

end Field

mutual

/-- Whether a field without a value leaves no trace: a scalar without a fallback, an array, or an
object without a path whose fields leave none. -/
def Field.IsSilent : Field → Prop
  | { type, shape, xpath, fallback, .. } =>
    match type with
    | .scalar _ | .choice _ => fallback = none
    | .objectArray => True
    | .object => xpath = none ∧
      match shape with
      | none => True
      | some fields => Schema.IsSilent fields

def Schema.IsSilent : List (String × Field) → Prop
  | [] => True
  | (_, field) :: rest => field.IsSilent ∧ Schema.IsSilent rest

end

/-! ### Data without values for what is added -/

namespace Assembly

mutual

/-- Whether a value has no entries for the fields that a layer of a field adds to its shape. -/
def OmitsBelow (value : Option Data) (base : Field) : Field → Prop
  | { shape := none, .. } => True
  | { type, shape := some fields, .. } =>
    match type with
    | .object => Omits (value.getD (.obj [])) (base.shape.getD []) fields
    | .objectArray => ∀ item ∈ itemsOf value, Omits (itemData item) (base.shape.getD []) fields
    | .scalar _ | .choice _ => True

/-- Whether data has no entries, but for null, for the fields that a layer adds at any depth. -/
def Omits (data : Data) (base : Schema) : List (String × Field) → Prop
  | [] => True
  | (name, field) :: rest =>
    (match base.find? name with
      | none => data.present? name = none
      | some old => OmitsBelow (data.present? name) old field) ∧ Omits data base rest

end

theorem omits_iff {data : Data} {base : Schema} {fields : List (String × Field)} :
    Omits data base fields ↔
      ∀ name field, (name, field) ∈ fields →
        (base.find? name = none → data.present? name = none) ∧
          ∀ old, base.find? name = some old → OmitsBelow (data.present? name) old field := by
  induction fields with
  | nil => simp [Omits]
  | cons head rest ih =>
    obtain ⟨name, field⟩ := head
    have hhead : (match base.find? name with
          | none => data.present? name = none
          | some old => OmitsBelow (data.present? name) old field) ↔
        (base.find? name = none → data.present? name = none) ∧
          ∀ old, base.find? name = some old → OmitsBelow (data.present? name) old field := by
      cases base.find? name <;> simp
    rw [Omits, hhead, ih]
    constructor
    · rintro ⟨hfirst, hrest⟩ other found hmem
      rcases List.mem_cons.mp hmem with heq | hmem
      · obtain ⟨rfl, rfl⟩ := Prod.mk.inj heq
        exact hfirst
      · exact hrest other found hmem
    · intro h
      exact ⟨h name field List.mem_cons_self, fun other found hmem =>
        h other found (List.mem_cons_of_mem _ hmem)⟩

theorem omitsBelow_of_scalar {value : Option Data} {old field : Field}
    (hscalar : field.type.isObjectLike = false) :
    OmitsBelow value old field := by
  cases field with
  | mk type required shape key group sibling xpath extras transform fallback =>
    cases shape with
    | none => trivial
    | some fields =>
      cases type with
      | object | objectArray => cases hscalar
      | scalar _ | choice _ => trivial

/-- A value omits what is added to a shape, if data that omits what another field of the type adds
to it does so. -/
theorem omitsBelow_of_omits {value : Option Data} {old own field : Field} {fields added : Schema}
    (htype : field.type = own.type) (hown : own.shape = some added) (hshape : field.shape = some fields)
    (h : ∀ data, Omits data (old.shape.getD []) added → Omits data (old.shape.getD []) fields)
    (homits : OmitsBelow value old own) : OmitsBelow value old field := by
  cases own with
  | mk ownType ownRequired ownShape ownKey ownGroup ownSibling ownXpath ownExtras ownTransform ownFallback =>
  cases field with
  | mk type required shape key group sibling xpath extras transform fallback =>
    obtain rfl : type = ownType := htype
    obtain rfl : ownShape = some added := hown
    obtain rfl : shape = some fields := hshape
    cases type with
    | object => exact h _ homits
    | objectArray => exact fun item hitem => h (itemData item) (homits item hitem)
    | scalar _ | choice _ => trivial

/-- A field adds nothing to itself, if its shape does not. -/
theorem omitsBelow_self {value : Option Data} {field : Field} (hformed : field.WellFormed)
    (h : ∀ fields, field.shape = some fields → WellFormed fields → ∀ data, Omits data fields fields) :
    OmitsBelow value field field := by
  obtain ⟨hfits, hbelow⟩ := Field.wellFormed_iff.mp hformed
  cases field with
  | mk type required shape key group sibling xpath extras transform fallback =>
    cases shape with
    | none => trivial
    | some fields =>
      have hself := h fields rfl (hbelow fields rfl)
      cases type with
      | object => exact hself _
      | objectArray => exact fun item _ => hself (itemData item)
      | scalar _ | choice _ => trivial

/-- A schema adds nothing to itself. -/
theorem omits_self : ∀ (fields : Schema), WellFormed fields → ∀ data, Omits data fields fields := by
  refine Schema.induction_on_shapes fun fields ih => ?_
  intro hformed data
  refine omits_iff.mpr fun name field hmem => ?_
  rw [Schema.find?_eq_some_of_mem hformed.distinct hmem]
  refine ⟨nofun, ?_⟩
  rintro _ ⟨⟩
  exact omitsBelow_self (hformed.field hmem) fun below hshape => ih name field below hmem hshape

/-- Data that omits what a layer adds to a schema omits what the merged schema has besides. -/
theorem omits_merge : ∀ (layer : Schema) {base : Schema}, WellFormed base → WellFormed layer →
    ∀ data, Omits data base layer → Omits data base (base.merge layer) := by
  refine Schema.induction_on_shapes fun layer ih => ?_
  intro base hbase hlayer data homits
  rw [omits_iff] at homits
  refine omits_iff.mpr fun name field hmem => ?_
  have hmerged := Schema.find?_eq_some_of_mem (Schema.nodup_names_merge layer hbase.distinct) hmem
  rw [Schema.find?_merge name base hlayer.distinct] at hmerged
  constructor
  · intro hnone
    rw [hnone, Schema.mergeField?_none_left] at hmerged
    exact (homits name field (Schema.mem_of_find?_eq_some hmerged)).1 hnone
  · intro old hold
    rw [hold] at hmerged
    cases hown : Schema.find? name layer with
    | none =>
      rw [hown] at hmerged
      obtain rfl := Option.some.inj hmerged
      exact omitsBelow_self (hbase.of_find? hold) fun below _ => omits_self below
    | some own =>
      rw [hown] at hmerged
      obtain rfl := Option.some.inj hmerged
      have hmem := Schema.mem_of_find?_eq_some hown
      obtain ⟨hfits, -⟩ := Field.wellFormed_iff.mp (hbase.of_find? hold)
      obtain ⟨hownFits, hownFormed⟩ := Field.wellFormed_iff.mp (hlayer.field hmem)
      have htype := Schema.type_mergeField old own
      cases hobject : own.type.isObjectLike with
      | false => exact omitsBelow_of_scalar (htype ▸ hobject)
      | true =>
        obtain ⟨added, hadded⟩ := Option.isSome_iff_exists.mp (hownFits.symm.trans hobject)
        have hshape := Schema.shape_mergeField hfits hownFits
        rw [if_pos hobject, hadded, Option.getD_some] at hshape
        refine omitsBelow_of_omits htype hadded hshape ?_ ((homits name own hmem).2 old hold)
        exact ih name own added hmem hadded (WellFormed.shape_getD (hbase.of_find? hold))
          (hownFormed added hadded)

end Assembly

end InvoiceXml
