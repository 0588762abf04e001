import InvoiceXml.Proofs.Schema.WellFormed
import InvoiceXml.Standard.Level

/-!
# Merging is associative up to order

Three schemas on top of each other can be merged from either side. Where a new field is put depends
on what is there already, so the two results may differ in the order of their fields, and in nothing
else (`Schema.SameUpToOrder`).

* `sameUpToOrder_of_find?`: schemas are the same up to order if what they declare under each name
  matches;
* `mergeField_assoc`: so it is with fields, if it is so with their shapes;
* **`sameUpToOrder_merge_merge`**: so it is with schemas that agree on what is an object or an
  array.

What a merged schema declares under a name is known without regard to order (`find?_merge`), so the
schemas are compared name by name, by induction on the shapes of the lowest.
-/

namespace InvoiceXml

/-- The field without its shape. -/
def Field.bare (field : Field) : Field := { field with shape := none }

namespace Schema

mutual

/-- Whether two fields have the same type and attributes, and shapes that are the same up to order. -/
def FieldMatches : Field → Field → Prop
  | { type, required, shape, key, group, sibling, xpath, extras, transform, fallback }, other =>
    ({ type, required, key, group, sibling, xpath, extras, transform, fallback } : Field) = other.bare ∧
      ShapeMatches shape other.shape

/-- Whether two shapes are both missing, or the same up to order. -/
def ShapeMatches : Option (List (String × Field)) → Option Schema → Prop
  | none, none => True
  | some fields, some others => (fields.map (·.1)).Perm (others.map (·.1)) ∧ FieldsMatch fields others
  | none, some _ | some _, none => False

/-- Whether each of the fields matches the one of its name. -/
def FieldsMatch : List (String × Field) → Schema → Prop
  | [], _ => True
  | (name, field) :: rest, others =>
    (∃ other, others.find? name = some other ∧ FieldMatches field other) ∧ FieldsMatch rest others

end

/-- Whether two schemas declare the same names, and matching fields under them. So it is at every depth. -/
def SameUpToOrder (schema other : Schema) : Prop :=
  (schema.map (·.1)).Perm (other.map (·.1)) ∧ FieldsMatch schema other

theorem fieldMatches_iff {field other : Field} :
    FieldMatches field other ↔ field.bare = other.bare ∧ ShapeMatches field.shape other.shape := by
  cases field
  exact Iff.rfl

theorem fieldsMatch_iff {fields : List (String × Field)} {others : Schema} :
    FieldsMatch fields others ↔
      ∀ name field, (name, field) ∈ fields →
        ∃ other, others.find? name = some other ∧ FieldMatches field other := by
  induction fields with
  | nil => simp [FieldsMatch]
  | cons head rest ih =>
    obtain ⟨name, field⟩ := head
    rw [FieldsMatch, ih]
    constructor
    · rintro ⟨hfield, hrest⟩ later found hmem
      rcases List.mem_cons.mp hmem with heq | hmem
      · obtain ⟨rfl, rfl⟩ := Prod.mk.inj heq
        exact hfield
      · exact hrest later found hmem
    · intro hall
      exact ⟨hall name field List.mem_cons_self, fun later found hmem =>
        hall later found (List.mem_cons_of_mem _ hmem)⟩

/-- Schemas without repeated names are the same up to order if what they declare under each name matches. -/
theorem sameUpToOrder_of_find? {schema other : Schema} (hschema : (schema.map (·.1)).Nodup)
    (hother : (other.map (·.1)).Nodup)
    (hfields : ∀ name, Option.Rel FieldMatches (schema.find? name) (other.find? name)) :
    SameUpToOrder schema other := by
  constructor
  · refine (List.perm_ext_iff_of_nodup hschema hother).mpr fun name => not_iff_not.mp ?_
    rw [← find?_eq_none_iff, ← find?_eq_none_iff]
    have hname := hfields name
    generalize schema.find? name = found at hname
    generalize other.find? name = foundOther at hname
    cases hname <;> simp
  · refine fieldsMatch_iff.mpr fun name field hmem => ?_
    have hname := hfields name
    rw [find?_eq_some_of_mem hschema hmem] at hname
    generalize other.find? name = foundOther at hname
    cases hname with
    | some hmatch => exact ⟨_, rfl, hmatch⟩

/-! ### Schemas match themselves -/

/-- A field matches itself if its shape does. -/
theorem fieldMatches_self {field : Field}
    (hbelow : ∀ fields, field.shape = some fields → SameUpToOrder fields fields) :
    FieldMatches field field := by
  refine fieldMatches_iff.mpr ⟨rfl, ?_⟩
  cases hshape : field.shape with
  | none => trivial
  | some fields => exact hbelow fields hshape

theorem sameUpToOrder_refl :
    ∀ schema : List (String × Field), WellFormed schema → SameUpToOrder schema schema := by
  refine induction_on_shapes fun schema ih => ?_
  intro hformed
  refine ⟨.refl _, fieldsMatch_iff.mpr fun name field hmem => ?_⟩
  have hbelow := (Field.wellFormed_iff.mp (hformed.field hmem)).2
  exact ⟨field, find?_eq_some_of_mem hformed.distinct hmem,
    fieldMatches_self fun fields hshape => ih name field fields hmem hshape (hbelow fields hshape)⟩

/-- What is declared under a name in a well-formed schema matches itself. -/
theorem rel_find?_self {schema : Schema} (hformed : WellFormed schema) (name : String) :
    Option.Rel FieldMatches (schema.find? name) (schema.find? name) := by
  cases hfind : schema.find? name with
  | none => exact .none
  | some field =>
    have hbelow := (Field.wellFormed_iff.mp (hformed.of_find? hfind)).2
    exact .some (fieldMatches_self fun fields hshape => sameUpToOrder_refl fields (hbelow fields hshape))

/-! ### Merging from either side -/

theorem bare_mergeField (base layer : Field) :
    (mergeField base layer).bare = base.bare.override layer.bare none := by
  rw [mergeField_eq_override]
  rfl

/-- For every attribute the last of three fields that sets it decides. -/
theorem override_assoc (lower middle upper : Field) :
    (lower.override middle none).override upper none = lower.override (middle.override upper none) none := by
  simp only [Field.override, Option.or_assoc]

theorem hasFittingShape_mergeField {base layer : Field} (hbase : HasFittingShape base)
    (hlayer : HasFittingShape layer) (hkind : base.type.isObjectLike = layer.type.isObjectLike) :
    HasFittingShape (mergeField base layer) := by
  rw [HasFittingShape, type_mergeField, shape_mergeField_of_isObjectLike_eq hbase hlayer hkind]
  cases layer.type.isObjectLike <;> rfl

/-- Three declarations of a field can be merged from either side, if their shapes can. -/
theorem mergeField_assoc {lower middle upper : Field} (hlower : lower.WellFormed)
    (hmiddle : middle.WellFormed)
    (hupper : upper.WellFormed) (hlowerKind : lower.type.isObjectLike = middle.type.isObjectLike)
    (hupperKind : middle.type.isObjectLike = upper.type.isObjectLike)
    (hbelow : ∀ fields, lower.shape = some fields →
      SameUpToOrder (merge (merge fields (middle.shape.getD [])) (upper.shape.getD []))
        (merge fields (merge (middle.shape.getD []) (upper.shape.getD [])))) :
    FieldMatches (mergeField (mergeField lower middle) upper)
      (mergeField lower (mergeField middle upper)) := by
  obtain ⟨hlowerFits, -⟩ := Field.wellFormed_iff.mp hlower
  obtain ⟨hmiddleFits, -⟩ := Field.wellFormed_iff.mp hmiddle
  obtain ⟨hupperFits, -⟩ := Field.wellFormed_iff.mp hupper
  have hfirst := shape_mergeField_of_isObjectLike_eq hlowerFits hmiddleFits hlowerKind
  have hsecond := shape_mergeField_of_isObjectLike_eq hmiddleFits hupperFits hupperKind
  have hleft := shape_mergeField_of_isObjectLike_eq
    (hasFittingShape_mergeField hlowerFits hmiddleFits hlowerKind) hupperFits (by rwa [type_mergeField])
  have hright := shape_mergeField_of_isObjectLike_eq hlowerFits
    (hasFittingShape_mergeField hmiddleFits hupperFits hupperKind)
    (by rw [type_mergeField, hlowerKind, hupperKind])
  rw [type_mergeField] at hright
  refine fieldMatches_iff.mpr ⟨by simp only [bare_mergeField, override_assoc], ?_⟩
  rw [hleft, hright, hfirst, hsecond, hupperKind]
  cases hobject : upper.type.isObjectLike with
  | false => trivial
  | true =>
    obtain ⟨fields, hshape, -⟩ :=
      Field.exists_shape_of_wellFormed hlower (hlowerKind.trans (hupperKind.trans hobject))
    rw [hshape]
    exact hbelow fields hshape

/-- **Merging is associative up to order.** Three well-formed schemas, of which any two that declare
a field agree on whether it is an object or an array, come to the same names, types, attributes and
shapes, up to the order of fields, from whichever side they are merged. -/
theorem sameUpToOrder_merge_merge : ∀ (lower middle upper : Schema), WellFormed lower → WellFormed middle →
    WellFormed upper → KeepsObjects lower middle → KeepsObjects middle upper → KeepsObjects lower upper →
    SameUpToOrder ((lower.merge middle).merge upper) (lower.merge (middle.merge upper)) := by
  refine induction_on_shapes fun lower ih => ?_
  intro middle upper hlower hmiddle hupper hlowerMiddle hmiddleUpper hlowerUpper
  have hdistinct := nodup_names_merge upper hmiddle.distinct
  refine sameUpToOrder_of_find? (nodup_names_merge upper (nodup_names_merge middle hlower.distinct))
    (nodup_names_merge _ hlower.distinct) fun name => ?_
  -- under a name that one of the three does not declare, both sides are what the other two come to
  have hpair : ∀ {base layer : Schema}, WellFormed base → WellFormed layer → KeepsObjects base layer →
      Option.Rel FieldMatches (mergeField? (base.find? name) (layer.find? name))
        (mergeField? (base.find? name) (layer.find? name)) := by
    intro base layer hbase hlayer hkeeps
    rw [← find?_merge name base hlayer.distinct]
    exact rel_find?_self (hkeeps.wellFormed_merge hbase hlayer) name
  have hlowerMiddleUnder := hpair hlower hmiddle hlowerMiddle
  have hmiddleUpperUnder := hpair hmiddle hupper hmiddleUpper
  have hlowerUpperUnder := hpair hlower hupper hlowerUpper
  rw [find?_merge name _ hupper.distinct, find?_merge name _ hmiddle.distinct, find?_merge name _ hdistinct,
    find?_merge name _ hupper.distinct]
  cases hfirst : Schema.find? name lower with
  | none =>
    rw [mergeField?_none_left, mergeField?_none_left]
    exact hmiddleUpperUnder
  | some first =>
    cases hsecond : Schema.find? name middle with
    | none =>
      rw [hfirst] at hlowerUpperUnder
      rw [mergeField?_none_left]
      exact hlowerUpperUnder
    | some second =>
      cases hthird : Schema.find? name upper with
      | none =>
        rw [hfirst, hsecond] at hlowerMiddleUnder
        exact hlowerMiddleUnder
      | some third =>
        have hfirstFormed := hlower.of_find? hfirst
        have hsecondFormed := hmiddle.of_find? hsecond
        have hthirdFormed := hupper.of_find? hthird
        refine .some (mergeField_assoc hfirstFormed hsecondFormed hthirdFormed
          (hlowerMiddle.isObjectLike_eq hfirst hsecond) (hmiddleUpper.isObjectLike_eq hsecond hthird)
          fun fields hshape => ?_)
        have hlowerBelow := hlowerMiddle.below hfirst hsecond
        have hupperBelow := hlowerUpper.below hfirst hthird
        rw [hshape, Option.getD_some] at hlowerBelow hupperBelow
        exact ih name first fields (mem_of_find?_eq_some hfirst) hshape _ _
          ((Field.wellFormed_iff.mp hfirstFormed).2 fields hshape) (WellFormed.shape_getD hsecondFormed)
          (WellFormed.shape_getD hthirdFormed) hlowerBelow (hmiddleUpper.below hsecond hthird) hupperBelow

/-- Three of the standard levels, the second and the third with new fields in shapes of the first. -/
theorem sameUpToOrder_merge_merge_levels :
    let lower := Level.minimum.ownSchema
    let middle := Level.basicWithoutLines.ownSchema
    let upper := Level.core.ownSchema
    (WellFormed lower ∧ WellFormed middle ∧ WellFormed upper ∧ KeepsObjects lower middle ∧
        KeepsObjects middle upper ∧ KeepsObjects lower upper) ∧
      SameUpToOrder ((lower.merge middle).merge upper) (lower.merge (middle.merge upper)) := by
  have hall : WellFormed Level.minimum.ownSchema ∧ WellFormed Level.basicWithoutLines.ownSchema ∧
      WellFormed Level.core.ownSchema ∧
        KeepsObjects Level.minimum.ownSchema Level.basicWithoutLines.ownSchema ∧
      KeepsObjects Level.basicWithoutLines.ownSchema Level.core.ownSchema ∧
      KeepsObjects Level.minimum.ownSchema Level.core.ownSchema := by decide +kernel
  obtain ⟨hlower, hmiddle, hupper, hlowerMiddle, hmiddleUpper, hlowerUpper⟩ := hall
  exact ⟨⟨hlower, hmiddle, hupper, hlowerMiddle, hmiddleUpper, hlowerUpper⟩,
    sameUpToOrder_merge_merge _ _ _ hlower hmiddle hupper hlowerMiddle hmiddleUpper hlowerUpper⟩

/-- The orders differ where the middle declares a new field and the upper one puts another before
those of the lower. -/
example :
    let field := Field.ofObject []
    ((merge [("a", field)] [("b", field)]).merge [("c", field), ("a", field)]).map (·.1) = ["c", "a", "b"] ∧
      (merge [("a", field)] (merge [("b", field)] [("c", field), ("a", field)])).map (·.1) =
          ["b", "c", "a"] := by
  decide +kernel

end Schema

end InvoiceXml
