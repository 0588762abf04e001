import InvoiceXml.Proofs.Schema.WellFormed
import InvoiceXml.Standard.Level

/-!
# What a chain of layers comes to

A chain of layers declares the names of all of them. Under each name stands what the declarations of
the name come to, the lowest first (`Field.ResolvedFrom`): the type is that of the last one, every
other attribute has the value of the last one that sets it, and the shape of objects and arrays is
what the chain of their shapes comes to.

* `resolvedFrom_mergeField`: one more declaration overrides what the earlier ones come to;
* `resolvedFrom_ofLayers`: what a chain comes to;
* **`ofLayers_resolves_along`**: the same at every depth, along names under which all layers declare
  objects or arrays.

The chain is walked from its end, where the last layer is merged over all below it.
-/

namespace InvoiceXml

namespace Schema

/-- The fields that layers declare under a name, the lowest first. -/
def declarations (name : String) (layers : List Schema) : List Field := layers.filterMap (find? name)

/-- The shapes of the fields that layers declare under a name, the lowest first. -/
def layersBelow (name : String) (layers : List Schema) : List Schema :=
  (declarations name layers).filterMap Field.shape

/-- The value of the last declaration that sets an attribute, if one does. -/
def lastSet {α : Type} (attr : Field → Option α) (declarations : List Field) : Option α :=
  (declarations.filterMap attr).getLast?

end Schema

open Schema (declarations layersBelow lastSet ofLayers WellFormed)

/-- Whether a field is what declarations of it, the lowest first, come to. -/
structure Field.ResolvedFrom (declarations : List Field) (field : Field) : Prop where
  type : declarations.getLast?.map (·.type) = some field.type
  required : field.required = lastSet (·.required) declarations
  key : field.key = lastSet (·.key) declarations
  group : field.group = lastSet (·.group) declarations
  sibling : field.sibling = lastSet (·.sibling) declarations
  xpath : field.xpath = lastSet (·.xpath) declarations
  extras : field.extras = lastSet (·.extras) declarations
  transform : field.transform = lastSet (·.transform) declarations
  fallback : field.fallback = lastSet (·.fallback) declarations
  /-- Shapes are merged where none of the declarations is a scalar. -/
  shape : (∀ declaration ∈ declarations, declaration.type.isObjectLike = true) →
    field.shape = some (ofLayers (declarations.filterMap Field.shape))

namespace Schema

variable {layers : List Schema} {name : String}

/-! ### Declarations of one field -/

theorem lastSet_append_singleton {α : Type} (attr : Field → Option α) (declarations : List Field)
    (last : Field) :
    lastSet attr (declarations ++ [last]) = (attr last).or (lastSet attr declarations) := by
  rw [lastSet, lastSet, List.filterMap_append]
  cases h : attr last <;> simp [h]

/-- A field that is declared once is as it is declared. -/
theorem resolvedFrom_singleton {field : Field} (hformed : field.WellFormed) : field.ResolvedFrom [field] := by
  have hlast : ∀ {α : Type} (attr : Field → Option α), attr field = lastSet attr [field] := by
    intro α attr
    have happend := lastSet_append_singleton attr [] field
    rw [show lastSet attr [] = none from rfl, Option.or_none] at happend
    exact happend.symm
  refine ⟨rfl, hlast _, hlast _, hlast _, hlast _, hlast _, hlast _, hlast _, hlast _, fun hobject => ?_⟩
  obtain ⟨fields, hshape, hfields⟩ :=
    Field.exists_shape_of_wellFormed hformed (hobject field List.mem_cons_self)
  have honly : [field].filterMap Field.shape = [fields] := by simp [hshape]
  rw [honly, hshape]
  exact congrArg some (nil_merge hfields.distinct).symm

/-- One more declaration overrides what the earlier ones come to. -/
theorem resolvedFrom_mergeField {earlier : List Field} {base layer : Field}
    (hbase : base.ResolvedFrom earlier) (hlayer : layer.WellFormed) :
    (mergeField base layer).ResolvedFrom (earlier ++ [layer]) := by
  obtain ⟨htype, hrequired, hkey, hgroup, hsibling, hxpath, hextras, htransform, hfallback⟩ :=
    mergeField_attributes base layer
  refine ⟨?_, ?_, ?_, ?_, ?_, ?_, ?_, ?_, ?_, fun hobject => ?_⟩
  · rw [List.getLast?_concat, htype]
    rfl
  · rw [hrequired, hbase.required, lastSet_append_singleton]
  · rw [hkey, hbase.key, lastSet_append_singleton]
  · rw [hgroup, hbase.group, lastSet_append_singleton]
  · rw [hsibling, hbase.sibling, lastSet_append_singleton]
  · rw [hxpath, hbase.xpath, lastSet_append_singleton]
  · rw [hextras, hbase.extras, lastSet_append_singleton]
  · rw [htransform, hbase.transform, lastSet_append_singleton]
  · rw [hfallback, hbase.fallback, lastSet_append_singleton]
  · obtain ⟨hfits, -⟩ := Field.wellFormed_iff.mp hlayer
    have hkind : layer.type.isObjectLike = true := hobject layer (by simp)
    obtain ⟨fields, hshape, -⟩ := Field.exists_shape_of_wellFormed hlayer hkind
    -- the earlier declarations come to an object or an array whose shape fits, so no branch of
    -- merging drops it
    have hbaseShape := hbase.shape fun declaration hmem => hobject declaration (List.mem_append_left _ hmem)
    have hbaseKind : base.type.isObjectLike = true := by
      obtain ⟨last, hlast, hsame⟩ := Option.map_eq_some_iff.mp hbase.type
      rw [← hsame]
      exact hobject last (List.mem_append_left _ (List.mem_of_getLast? hlast))
    have hbaseFits : HasFittingShape base := by
      rw [HasFittingShape, hbaseKind, hbaseShape]
      rfl
    have happend : (earlier ++ [layer]).filterMap Field.shape = earlier.filterMap Field.shape ++
        [fields] := by
      simp [hshape]
    rw [shape_mergeField hbaseFits hfits, if_pos hkind, hbaseShape, hshape, happend,
      ofLayers_append_singleton]
    rfl

/-! ### Chains -/

theorem declarations_append_singleton (name : String) (layers : List Schema) (last : Schema) :
    declarations name (layers ++ [last]) = declarations name layers ++ (find? name last).toList := by
  rw [declarations, declarations, List.filterMap_append]
  cases h : find? name last <;> simp [h]

/-- Under a name a chain has what the declarations of the name come to, and nothing if there are none. -/
theorem find?_ofLayers (hformed : ∀ layer ∈ layers, WellFormed layer) (name : String) :
    (declarations name layers = [] ∧ (ofLayers layers).find? name = none) ∨
      ∃ field, (ofLayers layers).find? name = some field ∧ field.ResolvedFrom (declarations name layers) := by
  induction layers using List.reverseRecOn with
  | nil => exact .inl ⟨rfl, rfl⟩
  | append_singleton layers last ih =>
    have hlast : WellFormed last := hformed last (by simp)
    have ih := ih fun layer hlayer => hformed layer (List.mem_append_left _ hlayer)
    rw [ofLayers_append_singleton, find?_merge name _ hlast.distinct, declarations_append_singleton]
    cases hfind : last.find? name with
    | none =>
      rw [Option.toList_none, List.append_nil]
      rcases ih with ⟨hnone, hfound⟩ | ⟨field, hfound, hfield⟩
      · exact .inl ⟨hnone, by rw [hfound]; rfl⟩
      · exact .inr ⟨field, by rw [hfound]; rfl, hfield⟩
    | some layer =>
      have hlayer := hlast.of_find? hfind
      rw [Option.toList_some]
      rcases ih with ⟨hnone, hfound⟩ | ⟨field, hfound, hfield⟩
      · refine .inr ⟨layer, by rw [hfound]; rfl, ?_⟩
        rw [hnone]
        exact resolvedFrom_singleton hlayer
      · exact .inr ⟨mergeField field layer, by rw [hfound]; rfl, resolvedFrom_mergeField hfield hlayer⟩

/-- Whether a schema is what a chain of layers comes to: it declares the names of all of them, and
under each name what its declarations come to. -/
structure ResolvedFrom (layers : List Schema) (schema : Schema) : Prop where
  declares : ∀ name, schema.declares name = true ↔ ∃ layer ∈ layers, layer.declares name = true
  field : ∀ name field, schema.find? name = some field → field.ResolvedFrom (declarations name layers)

theorem exists_declares_iff :
    (∃ layer ∈ layers, layer.declares name = true) ↔ declarations name layers ≠ [] := by
  rw [declarations, ne_eq, List.filterMap_eq_nil_iff]
  simp only [declares, Option.isSome_iff_ne_none]
  push Not
  rfl

theorem resolvedFrom_ofLayers (hformed : ∀ layer ∈ layers, WellFormed layer) :
    ResolvedFrom layers (ofLayers layers) where
  declares name := by
    rw [exists_declares_iff, declares]
    rcases find?_ofLayers hformed name with ⟨hnone, hfound⟩ | ⟨field, hfound, hfield⟩
    · simp [hnone, hfound]
    · have hsome : declarations name layers ≠ [] := by
        intro hnone
        have htype := hfield.type
        rw [hnone] at htype
        cases htype
      simp [hsome, hfound]
  field name field hfind := by
    rcases find?_ofLayers hformed name with ⟨-, hfound⟩ | ⟨found, hfound, hfield⟩
    · rw [hfound] at hfind
      cases hfind
    · rw [hfound] at hfind
      exact Option.some.inj hfind ▸ hfield

/-! ### At every depth -/

/-- The shape at the end of a way of names; the way without names ends at the schema itself. -/
def schemaAlong? : List String → Schema → Option Schema
  | [], schema => some schema
  | name :: way, schema => ((schema.find? name).bind Field.shape).bind (schemaAlong? way)

/-- The shapes of layers at the end of a way of names, the lowest first. -/
def layersAlong : List String → List Schema → List Schema
  | [], layers => layers
  | name :: way, layers => layersAlong way (layersBelow name layers)

/-- Whether every name on a way is declared, and only as an object or an array. -/
def ObjectsAlong : List String → List Schema → Prop
  | [], _ => True
  | name :: way, layers =>
    (∃ layer ∈ layers, layer.declares name = true) ∧
      (∀ declaration ∈ declarations name layers, declaration.type.isObjectLike = true) ∧
      ObjectsAlong way (layersBelow name layers)

instance decidableObjectsAlong :
    (way : List String) → (layers : List Schema) → Decidable (ObjectsAlong way layers)
  | [], _ => isTrue trivial
  | name :: way, layers =>
    have := decidableObjectsAlong way (layersBelow name layers)
    inferInstanceAs (Decidable (_ ∧ _ ∧ _))

theorem wellFormed_of_mem_layersBelow (hformed : ∀ layer ∈ layers, WellFormed layer) {below : Schema}
    (hmem : below ∈ layersBelow name layers) : WellFormed below := by
  obtain ⟨declaration, hdeclaration, hshape⟩ := List.mem_filterMap.mp hmem
  obtain ⟨layer, hlayer, hfind⟩ := List.mem_filterMap.mp hdeclaration
  exact (Field.wellFormed_iff.mp ((hformed layer hlayer).of_find? hfind)).2 below hshape

/-- **The last layer decides, at every depth.** Along names that well-formed layers declare as
objects and arrays only, the shape in the chain is the chain of the shapes in the layers. It
declares the names of all of them, each with the type that was declared last, with every attribute
as it was last set, and where no declaration is a scalar, with the chain of the shapes. -/
theorem ofLayers_resolves_along (hformed : ∀ layer ∈ layers, WellFormed layer) (way : List String)
    (hobjects : ObjectsAlong way layers) :
    schemaAlong? way (ofLayers layers) = some (ofLayers (layersAlong way layers)) ∧
      ResolvedFrom (layersAlong way layers) (ofLayers (layersAlong way layers)) := by
  induction way generalizing layers with
  | nil => exact ⟨rfl, resolvedFrom_ofLayers hformed⟩
  | cons name way ih =>
    obtain ⟨hdeclared, hkind, hobjects⟩ := hobjects
    have hresolved := resolvedFrom_ofLayers hformed
    obtain ⟨field, hfind⟩ := Option.isSome_iff_exists.mp ((hresolved.declares name).mpr hdeclared)
    have hshape := (hresolved.field name field hfind).shape hkind
    have hbelow := ih (fun below hmem => wellFormed_of_mem_layersBelow hformed hmem) hobjects
    rw [schemaAlong?, hfind, Option.bind_some, hshape]
    exact hbelow

/-- The totals of the settlement are declared by three of the five levels. -/
theorem ofLayers_resolves_along_totals :
    let layers := Level.all.map Level.ownSchema
    let totals : List Schema :=
      [Standard.Settlement.minimumTotals, Standard.Settlement.basicTotals, Standard.Settlement.coreTotals]
    (∀ layer ∈ layers, WellFormed layer) ∧ ObjectsAlong ["settlement", "totals"] layers ∧
      schemaAlong? ["settlement", "totals"] (ofLayers layers) = some (ofLayers totals) ∧
        ResolvedFrom totals (ofLayers totals) := by
  have hformed : ∀ layer ∈ Level.all.map Level.ownSchema, WellFormed layer := by decide +kernel
  have hobjects : ObjectsAlong ["settlement", "totals"] (Level.all.map Level.ownSchema) := by decide +kernel
  exact ⟨hformed, hobjects, ofLayers_resolves_along hformed ["settlement", "totals"] hobjects⟩

end Schema

end InvoiceXml
