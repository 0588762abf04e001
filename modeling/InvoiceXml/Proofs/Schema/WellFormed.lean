import InvoiceXml.Proofs.Schema.Overlay
import Mathlib.Data.List.Induction

/-!
# Well-formed schemas

A schema is well-formed when at every depth no name is declared twice and a field has a shape
exactly when it is an object or an array of objects (`Schema.WellFormed`). It can be decided.

Merging keeps schemas well-formed with one exception. An object or an array whose shape is without
fields may be declared again as a scalar: then its empty shape is left behind
(`Schema.LeavesShape`).

* **`wellFormed_merge`**: a layer over a schema, both well-formed, is well-formed iff it leaves no
  shape behind;
* `KeepsObjects.wellFormed_merge`: it leaves none where objects and arrays are declared over each
  other only;
* **`wellFormed_ofLayers_iff`**: layers on top of each other are well-formed at every step iff none
  leaves a shape.
-/

namespace InvoiceXml

mutual

/-- Whether a field has a shape exactly when it is an object or an array, and a well-formed one. -/
def Field.WellFormed : Field → Prop
  | { type, shape, .. } =>
    type.isObjectLike = shape.isSome ∧
      match shape with
      | some fields => Schema.WellFormed fields
      | none => True

/-- Whether at every depth names are declared once and shapes fit types. -/
def Schema.WellFormed : List (String × Field) → Prop
  | [] => True
  | (name, field) :: rest => name ∉ rest.map (·.1) ∧ field.WellFormed ∧ Schema.WellFormed rest

end

mutual

instance Field.decidableWellFormed : (field : Field) → Decidable field.WellFormed
  | { type, shape := none, .. } => inferInstanceAs (Decidable (type.isObjectLike = false ∧ True))
  | { type, shape := some fields, .. } =>
    have := Schema.decidableWellFormed fields
    inferInstanceAs (Decidable (type.isObjectLike = true ∧ Schema.WellFormed fields))

instance Schema.decidableWellFormed : (fields : List (String × Field)) → Decidable (Schema.WellFormed fields)
  | [] => isTrue trivial
  | (name, field) :: rest =>
    have := Field.decidableWellFormed field
    have := Schema.decidableWellFormed rest
    inferInstanceAs (Decidable (name ∉ rest.map (·.1) ∧ field.WellFormed ∧ Schema.WellFormed rest))

end

theorem Field.wellFormed_iff {field : Field} :
    field.WellFormed ↔
      Schema.HasFittingShape field ∧ ∀ fields, field.shape = some fields → Schema.WellFormed fields := by
  cases field with
  | mk type required shape key group sibling xpath extras transform fallback =>
    cases shape <;> simp [Field.WellFormed, Schema.HasFittingShape]

theorem Field.shape_eq_none_of_wellFormed {field : Field} (h : field.WellFormed)
    (hscalar : field.type.isObjectLike = false) : field.shape = none :=
  (Field.wellFormed_iff.mp h).1.shape_eq_none hscalar

theorem Field.exists_shape_of_wellFormed {field : Field} (h : field.WellFormed)
    (hobject : field.type.isObjectLike = true) :
    ∃ fields, field.shape = some fields ∧ Schema.WellFormed fields := by
  obtain ⟨hfits, hbelow⟩ := Field.wellFormed_iff.mp h
  obtain ⟨fields, hshape⟩ := hfits.exists_shape hobject
  exact ⟨fields, hshape, hbelow fields hshape⟩

namespace Schema

theorem wellFormed_iff {fields : List (String × Field)} :
    WellFormed fields ↔ (fields.map (·.1)).Nodup ∧ ∀ name field, (name, field) ∈ fields →
      field.WellFormed := by
  induction fields with
  | nil => simp [WellFormed]
  | cons head rest ih =>
    obtain ⟨name, field⟩ := head
    rw [WellFormed, ih, List.map_cons, List.nodup_cons]
    constructor
    · intro h
      obtain ⟨hnew, hfield, hdistinct, hrest⟩ := h
      refine ⟨⟨hnew, hdistinct⟩, fun other found hmem => ?_⟩
      rcases List.mem_cons.mp hmem with heq | hmem
      · obtain ⟨rfl, rfl⟩ := Prod.mk.inj heq
        exact hfield
      · exact hrest other found hmem
    · intro h
      obtain ⟨⟨hnew, hdistinct⟩, hall⟩ := h
      exact ⟨hnew, hall name field List.mem_cons_self, hdistinct, fun other found hmem =>
        hall other found (List.mem_cons_of_mem _ hmem)⟩

namespace WellFormed

variable {fields : List (String × Field)}

theorem distinct (h : WellFormed fields) : (fields.map (·.1)).Nodup := (wellFormed_iff.mp h).1

theorem field (h : WellFormed fields) {name : String} {field : Field} (hmem : (name, field) ∈ fields) :
    field.WellFormed :=
  (wellFormed_iff.mp h).2 name field hmem

theorem of_find? (h : WellFormed fields) {name : String} {field : Field}
    (hfind : find? name fields = some field) :
    field.WellFormed :=
  h.field (mem_of_find?_eq_some hfind)

/-- The fields that a field has below it are well-formed, if there are any. -/
theorem shape_getD {field : Field} (h : field.WellFormed) : WellFormed (field.shape.getD []) := by
  cases hshape : field.shape with
  | none => exact trivial
  | some fields => exact (Field.wellFormed_iff.mp h).2 fields hshape

end WellFormed

/-! ### Layers that leave a shape behind -/

instance decidableEmptyShape : (shape : Option (List (String × Field))) → Decidable (shape = some [])
  | none | some (_ :: _) => isFalse nofun
  | some [] => isTrue rfl

/-- Whether a field is a scalar, declared over an object or an array without fields. -/
def LeavesShapeOf : Option Field × Field → Prop
  | (some old, field) =>
    (old.type.isObjectLike = true ∧ old.shape = some []) ∧ field.type.isObjectLike = false
  | (none, _) => False

instance decidableLeavesShapeOf : (pair : Option Field × Field) → Decidable (LeavesShapeOf pair)
  | (some old, field) =>
    inferInstanceAs (Decidable ((old.type.isObjectLike = true ∧ old.shape = some []) ∧
      field.type.isObjectLike = false))
  | (none, _) => isFalse id

/-- Whether a layer declares as a scalar, at any depth, what is an object or an array without fields. -/
def LeavesShape (base layer : Schema) : Prop := ∃ pair ∈ base.overlay layer, LeavesShapeOf pair

instance (base layer : Schema) : Decidable (LeavesShape base layer) :=
  inferInstanceAs (Decidable (∃ pair ∈ base.overlay layer, LeavesShapeOf pair))

/-- A layer leaves a shape behind where it makes a scalar of a field or does so in the shape of one. -/
theorem leavesShape_iff {base layer : Schema} :
    LeavesShape base layer ↔
      ∃ name field old, (name, field) ∈ layer ∧ base.find? name = some old ∧
        (LeavesShapeOf (some old, field) ∨ ∃ pair ∈ overlayBelow old field, LeavesShapeOf pair) := by
  constructor
  · rintro ⟨pair, hpair, hleaves⟩
    obtain ⟨name, field, hmem, rfl | ⟨old, hold, hbelow⟩⟩ := mem_overlay.mp hpair
    · cases hold : base.find? name with
      | none =>
        rw [hold] at hleaves
        cases hleaves
      | some old =>
        rw [hold] at hleaves
        exact ⟨name, field, old, hmem, hold, .inl hleaves⟩
    · exact ⟨name, field, old, hmem, hold, .inr ⟨pair, hbelow, hleaves⟩⟩
  · rintro ⟨name, field, old, hmem, hold, hleaves | ⟨pair, hpair, hleaves⟩⟩
    · exact ⟨_, shared_mem_overlay hmem hold, hleaves⟩
    · exact ⟨pair, below_mem_overlay hmem hold hpair, hleaves⟩

/-! ### Merging -/

theorem type_mergeField (base layer : Field) : (mergeField base layer).type = layer.type :=
  (mergeField_attributes base layer).1

/-- A scalar over a field is well-formed iff it leaves no shape behind. -/
theorem wellFormed_mergeField_of_scalar {base layer : Field} (hbase : base.WellFormed)
    (hlayer : layer.WellFormed) (hkind : layer.type.isObjectLike = false) :
    (mergeField base layer).WellFormed ↔ base.shape ≠ some [] := by
  obtain ⟨hbaseFits, -⟩ := Field.wellFormed_iff.mp hbase
  obtain ⟨hlayerFits, -⟩ := Field.wellFormed_iff.mp hlayer
  have hshape := shape_mergeField hbaseFits hlayerFits
  rw [hkind, if_neg Bool.false_ne_true] at hshape
  rw [Field.wellFormed_iff, HasFittingShape, type_mergeField, hkind, hshape]
  cases hfields : base.shape with
  | none => simp
  | some fields =>
    cases fields with
    | nil => simp [Field.hasFields, hfields]
    | cons first rest => simp [hasFields_of_shape hbaseFits hfields]

/-- An object or an array over a field is well-formed iff the merged shape is. -/
theorem wellFormed_mergeField_of_shape {base layer : Field} (hbase : base.WellFormed)
    (hlayer : layer.WellFormed) {fields : List (String × Field)}
    (hshape : layer.shape = some fields) :
    (mergeField base layer).WellFormed ↔ WellFormed (merge (base.shape.getD []) fields) := by
  obtain ⟨hbaseFits, -⟩ := Field.wellFormed_iff.mp hbase
  obtain ⟨hlayerFits, -⟩ := Field.wellFormed_iff.mp hlayer
  have hkind : layer.type.isObjectLike = true := hlayerFits.isObjectLike_of_shape hshape
  have hmerged := shape_mergeField hbaseFits hlayerFits
  rw [if_pos hkind, hshape, Option.getD_some] at hmerged
  rw [Field.wellFormed_iff, HasFittingShape, type_mergeField, hkind, hmerged]
  simp

/-- A merged schema is well-formed iff the fields of both sides are so when merged. -/
theorem wellFormed_merge_iff_fields {base layer : Schema} (hbase : WellFormed base)
    (hlayer : WellFormed layer) :
    WellFormed (base.merge layer) ↔
      ∀ name field old, (name, field) ∈ layer → base.find? name = some old →
        (mergeField old field).WellFormed := by
  have hdistinct := nodup_names_merge layer hbase.distinct
  constructor
  · intro h name field old hmem hold
    have hfind : find? name (base.merge layer) = some (mergeField old field) := by
      rw [find?_merge name base hlayer.distinct, hold, find?_eq_some_of_mem hlayer.distinct hmem]
      rfl
    exact h.of_find? hfind
  · intro h
    refine wellFormed_iff.mpr ⟨hdistinct, fun name field hmem => ?_⟩
    have hfind := find?_eq_some_of_mem hdistinct hmem
    rw [find?_merge name base hlayer.distinct] at hfind
    cases hold : base.find? name with
    | none =>
      rw [hold, mergeField?_none_left] at hfind
      exact hlayer.of_find? hfind
    | some old =>
      cases hadded : layer.find? name with
      | none =>
        rw [hold, hadded] at hfind
        obtain rfl := Option.some.inj hfind
        exact hbase.of_find? hold
      | some added =>
        rw [hold, hadded] at hfind
        obtain rfl := Option.some.inj hfind
        exact h name added old (mem_of_find?_eq_some hadded) hold

/-- **When a merged schema is well-formed.** A layer over a schema, both well-formed, is so iff the
layer nowhere makes a scalar of an object or an array without fields. -/
theorem wellFormed_merge : ∀ (layer : Schema) {base : Schema}, WellFormed base → WellFormed layer →
    (WellFormed (base.merge layer) ↔ ¬LeavesShape base layer) := by
  refine induction_on_shapes fun layer ih => ?_
  intro base hbase hlayer
  have hfield : ∀ name field old, (name, field) ∈ layer → base.find? name = some old →
      ((mergeField old field).WellFormed ↔
        ¬(LeavesShapeOf (some old, field) ∨ ∃ pair ∈ overlayBelow old field, LeavesShapeOf pair)) := by
    intro name field old hmem hold
    have hfieldFormed := hlayer.field hmem
    have holdFormed := hbase.of_find? hold
    obtain ⟨hfits, hbelow⟩ := Field.wellFormed_iff.mp hfieldFormed
    cases hshape : field.shape with
    | none =>
      have hkind : field.type.isObjectLike = false := by rw [hfits, hshape]; rfl
      have hempty : old.shape = some [] → old.type.isObjectLike = true := by
        intro hempty
        rw [(Field.wellFormed_iff.mp holdFormed).1, hempty]
        rfl
      rw [wellFormed_mergeField_of_scalar holdFormed hfieldFormed hkind, overlayBelow_of_shape_none hshape]
      simpa [LeavesShapeOf, hkind] using or_iff_not_imp_right.mpr fun h => hempty (not_not.mp h)
    | some fields =>
      have hkind : field.type.isObjectLike = true := hfits.isObjectLike_of_shape hshape
      rw [wellFormed_mergeField_of_shape holdFormed hfieldFormed hshape, overlayBelow_of_shape hshape,
        ih name field fields hmem hshape (WellFormed.shape_getD holdFormed) (hbelow fields hshape)]
      simp [LeavesShapeOf, LeavesShape, hkind]
  rw [wellFormed_merge_iff_fields hbase hlayer, leavesShape_iff]
  constructor
  · rintro h ⟨name, field, old, hmem, hold, hleaves⟩
    exact (hfield name field old hmem hold).mp (h name field old hmem hold) hleaves
  · intro h name field old hmem hold
    exact (hfield name field old hmem hold).mpr fun hleaves => h ⟨name, field, old, hmem, hold, hleaves⟩

/-! ### Layers that keep objects apart from scalars -/

/-- Whether fields that a layer declares over others, at any depth, are objects or arrays where those are. -/
def KeepsObjects (base layer : Schema) : Prop :=
  ∀ old field, (some old, field) ∈ base.overlay layer → old.type.isObjectLike = field.type.isObjectLike

instance (base layer : Schema) : Decidable (KeepsObjects base layer) :=
  decidable_of_iff (∀ pair ∈ base.overlay layer, ∀ old ∈ pair.1, old.type.isObjectLike =
    pair.2.type.isObjectLike)
    ⟨fun h old field hpair => h _ hpair old rfl, fun h pair hpair old hold => h old pair.2 (by
      obtain ⟨base, field⟩ := pair
      obtain rfl : base = some old := hold
      exact hpair)⟩

namespace KeepsObjects

variable {base layer : Schema} {name : String} {old field : Field}

theorem isObjectLike_eq (h : KeepsObjects base layer) (hold : base.find? name = some old)
    (hfield : layer.find? name = some field) : old.type.isObjectLike = field.type.isObjectLike :=
  h old field (shared_mem_overlay (mem_of_find?_eq_some hfield) hold)

/-- It is so below every field of both. -/
theorem below (h : KeepsObjects base layer) (hold : base.find? name = some old)
    (hfield : layer.find? name = some field) : KeepsObjects (old.shape.getD []) (field.shape.getD []) := by
  intro inner found hpair
  refine h inner found (below_mem_overlay (mem_of_find?_eq_some hfield) hold ?_)
  cases hshape : field.shape with
  | none =>
    rw [hshape] at hpair
    cases hpair
  | some fields =>
    rw [overlayBelow_of_shape hshape]
    rwa [hshape, Option.getD_some] at hpair

theorem not_leavesShape (h : KeepsObjects base layer) : ¬LeavesShape base layer := by
  rintro ⟨⟨_ | old, field⟩, hpair, hleaves⟩
  · exact hleaves
  · obtain ⟨⟨hobject, -⟩, hscalar⟩ := hleaves
    rw [h old field hpair, hscalar] at hobject
    exact Bool.false_ne_true hobject

theorem wellFormed_merge (h : KeepsObjects base layer) (hbase : WellFormed base) (hlayer : WellFormed layer) :
    WellFormed (base.merge layer) :=
  (Schema.wellFormed_merge layer hbase hlayer).mpr h.not_leavesShape

end KeepsObjects

/-! ### Chains of layers -/

theorem ofLayers_append_singleton (layers : List Schema) (last : Schema) :
    ofLayers (layers ++ [last]) = merge (ofLayers layers) last := by
  rw [ofLayers, List.foldl_append]
  rfl

/-- Layers on top of each other are well-formed if each of them is and none leaves a shape behind. -/
theorem wellFormed_ofLayers {layers : List Schema} (hall : ∀ layer ∈ layers, WellFormed layer)
    (hleaves : ∀ before layer after, layers = before ++ layer :: after →
      ¬LeavesShape (ofLayers before) layer) :
    WellFormed (ofLayers layers) := by
  induction layers using List.reverseRecOn with
  | nil => exact trivial
  | append_singleton layers last ih =>
    have hlower : WellFormed (ofLayers layers) := by
      refine ih (fun layer hlayer => hall layer (List.mem_append_left _ hlayer))
        fun before layer after heq => ?_
      exact hleaves before layer (after ++ [last]) (by simp [heq])
    rw [ofLayers_append_singleton, wellFormed_merge last hlower (hall last (by simp))]
    exact hleaves layers last [] rfl

/-- Well-formed layers on top of each other are well-formed at every step iff no step leaves a shape
behind. -/
theorem wellFormed_ofLayers_iff {layers : List Schema} (hall : ∀ layer ∈ layers, WellFormed layer) :
    (∀ before after, layers = before ++ after → WellFormed (ofLayers before)) ↔
      ∀ before layer after, layers = before ++ layer :: after → ¬LeavesShape (ofLayers before) layer := by
  constructor
  · intro h before layer after heq
    have hnext := h (before ++ [layer]) after (by simp [heq])
    rw [ofLayers_append_singleton] at hnext
    exact (wellFormed_merge layer (h before _ heq) (hall layer (by simp [heq]))).mp hnext
  · intro h before after heq
    have hbefore : ∀ layer ∈ before, WellFormed layer := fun layer hlayer =>
      hall layer (by simp [heq, hlayer])
    refine wellFormed_ofLayers hbefore fun lower layer upper hsplit => ?_
    exact h lower layer (upper ++ after) (by simp [heq, hsplit])

end Schema

end InvoiceXml
