import InvoiceXml.Proofs.Schema.WellFormed

/-!
# Layers that change nothing

The empty schema changes nothing as a layer, and a layer over it is the layer. A layer that is there
already changes nothing either: merged over a schema a second time it finds all of its names, and
under each of them what it would make of the field. Equality of schemas here is that of all they
declare, at every depth and in order.

* `mergeFields_eq_self`: a layer changes nothing if it makes of every field what is there;
* `mergeField_mergeField_self`: a field under a layer of it is so, if its shape is;
* **`merge_absorbs`**: the three laws.

A field that the layer alone declares is as if it were declared over a field of its type that sets
nothing (`mergeField_ofType`), so it need not be treated apart.
-/

namespace InvoiceXml.Schema

/-! ### Fields that stay as they are -/

theorem insert_of_find? {name : String} {field : Field} {schema : Schema}
    (h : schema.find? name = some field) :
    schema.insert name field = schema := by
  induction schema with
  | nil => cases h
  | cons head rest ih =>
    obtain ⟨other, found⟩ := head
    rw [find?] at h
    rw [insert]
    split
    · rename_i hname
      rw [if_pos hname] at h
      rw [Option.some.inj h]
    · rename_i hname
      rw [if_neg hname] at h
      rw [ih h]

/-- A layer changes nothing if all of its names are there and it makes of each field what is there. -/
theorem mergeFields_eq_self {base : Schema} {layer : List (String × Field)}
    (h : ∀ name field, (name, field) ∈ layer → ∃ old, base.find? name = some old ∧
      mergeField old field = old) :
    mergeFields base layer = base := by
  induction layer with
  | nil => rw [mergeFields]
  | cons head rest ih =>
    obtain ⟨name, field⟩ := head
    obtain ⟨old, hold, hsame⟩ := h name field List.mem_cons_self
    rw [mergeFields, hold]
    show mergeFields (base.insert name (mergeField old field)) rest = base
    rw [hsame, insert_of_find? hold]
    exact ih fun other found hmem => h other found (List.mem_cons_of_mem _ hmem)

/-! ### Overriding a field twice -/

/-- Attributes that were overridden are overridden by the same ones, whatever the shapes. -/
theorem override_override (base layer : Field) (shape other : Option Schema) :
    (base.override layer shape).override layer other = base.override layer other := by
  simp only [Field.override, ← Option.or_assoc, Option.or_self]

/-- An object or an array that is there with all that a layer declares below it keeps its shape. -/
theorem mergedShape_of_merge_eq {base layer : Field} {below fields : Schema}
    (hbase : HasFittingShape base) (hlayer : HasFittingShape layer) (hbelow : base.shape = some below)
    (hfields : layer.shape = some fields) (habsorbed : below.merge fields = below) :
    mergedShape base layer (below.merge fields) = some below := by
  rw [mergedShape, if_pos (hlayer.isObjectLike_of_shape hfields), habsorbed]
  split
  · rfl
  · rename_i hnone
    rw [Bool.or_eq_true, not_or, Bool.not_eq_true, Bool.not_eq_true] at hnone
    have hbaseEmpty := shape_getD_eq_nil hbase hnone.1
    have hlayerEmpty := shape_getD_eq_nil hlayer hnone.2
    rw [hbelow, Option.getD_some] at hbaseEmpty
    rw [hfields, Option.getD_some] at hlayerEmpty
    rw [hfields, hlayerEmpty, hbaseEmpty]
    rfl

/-- The shape that an object or an array gets from a layer is one that the layer does not change. -/
theorem exists_mergedShape {layer : Field} {fields : Schema} (hlayer : HasFittingShape layer)
    (hfields : layer.shape = some fields) (base : Field)
    (hbelow : ∀ below : Schema, (below.merge fields).merge fields = below.merge fields) :
    ∃ below, mergedShape base layer (merge (base.shape.getD []) fields) = some below ∧
      below.merge fields = below := by
  rw [mergedShape, if_pos (hlayer.isObjectLike_of_shape hfields)]
  split
  · exact ⟨_, rfl, hbelow _⟩
  · -- nothing is below the field, and nothing is declared below it
    rename_i hnone
    rw [Bool.or_eq_true, not_or, Bool.not_eq_true, Bool.not_eq_true] at hnone
    have hempty := shape_getD_eq_nil hlayer hnone.2
    rw [hfields, Option.getD_some] at hempty
    rw [hfields, hempty]
    exact ⟨[], rfl, merge_nil []⟩

/-- A field under a layer of it stays as it is under the same layer, if that is so of its shape. -/
theorem mergeField_mergeField_self {layer : Field} (hlayer : HasFittingShape layer)
    (hbelow : ∀ fields, layer.shape = some fields → ∀ below : Schema,
      (below.merge fields).merge fields = below.merge fields) (base : Field) :
    mergeField (mergeField base layer) layer = mergeField base layer := by
  rw [mergeField_eq_override (mergeField base layer), mergeField_eq_override base, override_override]
  refine congrArg (base.override layer) ?_
  cases hobject : layer.type.isObjectLike with
  | false =>
    have hnone : layer.shape = none := hlayer.shape_eq_none hobject
    -- a scalar has no fields, so what the first time has left behind is left behind again
    rw [mergedShape]
    simp [Field.hasFields, Field.override, hobject, hnone]
  | true =>
    obtain ⟨fields, hfields⟩ := hlayer.exists_shape hobject
    rw [hfields, Option.getD_some]
    obtain ⟨below, hshape, habsorbed⟩ := exists_mergedShape hlayer hfields base (hbelow fields hfields)
    rw [hshape]
    have hfits : HasFittingShape (base.override layer (some below)) := hobject
    exact mergedShape_of_merge_eq hfits hlayer rfl hfields habsorbed

/-- A field over one of its type that sets nothing is as it is declared. -/
theorem mergeField_ofType {layer : Field} (hlayer : layer.WellFormed) :
    mergeField { type := layer.type } layer = layer := by
  have hshape : mergedShape { type := layer.type } layer (merge [] (layer.shape.getD [])) = layer.shape := by
    have hnone : Field.hasFields { type := layer.type } = false := by simp [Field.hasFields]
    rw [mergedShape, hnone, Bool.false_or]
    split
    · cases hobject : layer.type.isObjectLike with
      | false => exact (Field.shape_eq_none_of_wellFormed hlayer hobject).symm
      | true =>
        obtain ⟨fields, hfields, hformed⟩ := Field.exists_shape_of_wellFormed hlayer hobject
        rw [if_pos rfl, hfields, Option.getD_some, nil_merge hformed.distinct]
    · exact Option.or_none
  rw [mergeField_eq_override]
  show Field.override _ _ (mergedShape _ _ (merge [] _)) = _
  rw [hshape]
  cases layer
  simp [Field.override]

/-! ### Layers that are there already -/

/-- **A layer that is there changes nothing.** -/
theorem merge_merge_self : ∀ layer : List (String × Field), WellFormed layer → ∀ base : Schema,
    (base.merge layer).merge layer = base.merge layer := by
  refine induction_on_shapes fun layer ih => ?_
  intro hlayer base
  refine mergeFields_eq_self fun name field hmem => ?_
  have hfield := hlayer.field hmem
  obtain ⟨hfits, hbelow⟩ := Field.wellFormed_iff.mp hfield
  have habsorbed : ∀ old, mergeField (mergeField old field) field = mergeField old field :=
    mergeField_mergeField_self hfits fun fields hshape =>
      ih name field fields hmem hshape (hbelow fields hshape)
  rw [find?_merge name base hlayer.distinct, find?_eq_some_of_mem hlayer.distinct hmem]
  cases base.find? name with
  | none =>
    have hself := habsorbed { type := field.type }
    rw [mergeField_ofType hfield] at hself
    exact ⟨field, rfl, hself⟩
  | some old => exact ⟨mergeField old field, rfl, habsorbed old⟩

/-- **The empty schema and a repeated layer change nothing.** A schema without a layer is the
schema, a well-formed layer over nothing is the layer, and merged again over what it was merged
over, it changes nothing; so it is with the layer over itself. -/
theorem merge_absorbs (base : Schema) {layer : Schema} (hlayer : WellFormed layer) :
    base.merge [] = base ∧ merge [] layer = layer ∧ (base.merge layer).merge layer = base.merge layer ∧
      layer.merge layer = layer := by
  have hnil : merge [] layer = layer := nil_merge hlayer.distinct
  have hself := merge_merge_self layer hlayer []
  rw [hnil] at hself
  exact ⟨merge_nil base, hnil, merge_merge_self layer hlayer base, hself⟩

/-- Fields of all kinds that a layer makes into others: it makes a text of an object without fields,
which leaves a shape behind, an object of a text, and an object of an array, with a new field before
the old one. -/
theorem merge_absorbs_retyped :
    let base : Schema := [("delivery", Field.ofObject []), ("note", Field.ofChoice ["none"]),
      ("parties", Field.ofArray [("name", Field.ofChoice ["buyer", "seller"])])]
    let layer : Schema := [("delivery", Field.ofChoice ["express"]),
      ("note", Field.ofObject [("text", Field.ofChoice [])]),
      ("parties", Field.ofObject [("id", Field.ofChoice ["1"]), ("name", Field.ofChoice ["buyer"])])]
    WellFormed layer ∧ LeavesShape base layer ∧ base.merge [] = base ∧ merge [] layer = layer ∧
      (base.merge layer).merge layer = base.merge layer ∧ layer.merge layer = layer := by
  intro base layer
  have hlayer : WellFormed layer := by decide +kernel
  exact ⟨hlayer, by decide +kernel, merge_absorbs base hlayer⟩

end InvoiceXml.Schema
