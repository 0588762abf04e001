import InvoiceXml.Proofs.Schema.Entry
import Mathlib.Data.List.Perm.Basic

/-!
# Merged schemas, name by name

What a layer over a schema declares under each name, in which order, and with which shapes.

* **`find?_merge`**: a name of both sides has the merged field, any other name the field of its
  side;
* `names_sublist_merge`, `nodup_names_merge`, `mem_names_merge`: the names of the schema keep their
  order, no name comes twice, and the names are those of both sides;
* `nil_merge`: a layer over nothing is the layer;
* `shape_mergeField`: the shape of a merged object or array is the merged shape. A scalar over an
  object or an array has none, except that a shape without fields is left behind.

The layer is walked by induction: a field of both sides is exchanged in its place, a new one is put
among the others.
-/

namespace InvoiceXml.Schema

/-! ### Fields by name -/

theorem find?_eq_none_iff {name : String} {schema : Schema} :
    schema.find? name = none ↔ name ∉ schema.map (·.1) := by
  rw [← Option.not_isSome_iff_eq_none]
  exact not_congr (declares_iff name schema)

theorem mem_of_find?_eq_some {name : String} {field : Field} {schema : Schema}
    (h : schema.find? name = some field) : (name, field) ∈ schema := by
  induction schema with
  | nil => cases h
  | cons head rest ih =>
    obtain ⟨other, found⟩ := head
    rw [find?] at h
    split at h
    · rename_i hname
      obtain rfl := Option.some.inj h
      exact hname ▸ List.mem_cons_self
    · exact List.mem_cons_of_mem _ (ih h)

theorem find?_eq_some_of_mem {name : String} {field : Field} {schema : Schema}
    (hdistinct : (schema.map (·.1)).Nodup) (h : (name, field) ∈ schema) : schema.find? name = some field := by
  induction schema with
  | nil => cases h
  | cons head rest ih =>
    obtain ⟨other, found⟩ := head
    obtain ⟨hnew, hrest⟩ := List.nodup_cons.mp hdistinct
    rcases List.mem_cons.mp h with heq | h
    · obtain ⟨rfl, rfl⟩ := Prod.mk.inj heq
      exact if_pos rfl
    · have hne : other ≠ name := fun heq => hnew (heq ▸ List.mem_map_of_mem (f := (·.1)) h)
      rw [find?, if_neg hne, ih hrest h]

/-! ### Placing a new field -/

/-- An anchor is the place of a field. -/
theorem anchor?_lt {schema : Schema} {names : List String} {i : Nat} (h : schema.anchor? names = some i) :
    i < schema.length := by
  obtain ⟨name, -, hplace⟩ := List.exists_of_findSome?_eq_some h
  exact (List.findIdx?_eq_some_iff_findIdx_eq.mp hplace).1

theorem find?_insertIdx_self {name : String} {schema : Schema} (hnew : name ∉ schema.map (·.1))
    (field : Field) {i : Nat} (hi : i ≤ schema.length) :
    find? name (schema.insertIdx i (name, field)) = some field := by
  induction schema generalizing i with
  | nil =>
    obtain rfl : i = 0 := by simpa using hi
    exact if_pos rfl
  | cons head rest ih =>
    obtain ⟨other, found⟩ := head
    rw [List.map_cons, List.mem_cons, not_or] at hnew
    cases i with
    | zero => exact if_pos rfl
    | succ i =>
      rw [List.insertIdx_succ_cons, find?, if_neg (Ne.symm hnew.1)]
      exact ih hnew.2 (by simpa using hi)

theorem find?_insertIdx_of_ne {name other : String} (h : other ≠ name) (field : Field)
    (schema : Schema) (i : Nat) :
    find? other (schema.insertIdx i (name, field)) = find? other schema := by
  induction schema generalizing i with
  | nil => cases i <;> simp [find?, Ne.symm h]
  | cons head rest ih =>
    obtain ⟨first, found⟩ := head
    cases i with
    | zero => simp [find?, Ne.symm h]
    | succ i => simp only [List.insertIdx_succ_cons, find?, ih]

theorem find?_place_self {name : String} {schema : Schema} (hnew : name ∉ schema.map (·.1)) (field : Field)
    (following : List String) : find? name (schema.place name field following) = some field := by
  rw [place]
  split
  · rename_i i hanchor
    exact find?_insertIdx_self hnew field (Nat.le_of_lt (anchor?_lt hanchor))
  · have hend := find?_insertIdx_self hnew field (Nat.le_refl schema.length)
    rwa [List.insertIdx_length_self] at hend

theorem find?_place_of_ne {name other : String} (h : other ≠ name) (field : Field) (following : List String)
    (schema : Schema) : find? other (schema.place name field following) = find? other schema := by
  rw [place]
  split
  · exact find?_insertIdx_of_ne h field schema _
  · rw [← List.insertIdx_length_self]
    exact find?_insertIdx_of_ne h field schema _

theorem sublist_place (name : String) (field : Field) (following : List String) (schema : Schema) :
    schema.Sublist (schema.place name field following) := by
  rw [place]
  split
  · exact List.sublist_insertIdx _ _ _
  · exact List.sublist_append_left _ _

theorem place_perm (name : String) (field : Field) (following : List String) (schema : Schema) :
    (schema.place name field following).Perm ((name, field) :: schema) := by
  rw [place]
  split
  · rename_i i hanchor
    exact List.perm_insertIdx _ _ (Nat.le_of_lt (anchor?_lt hanchor))
  · exact List.perm_append_singleton _ _

/-! ### Merging by name -/

theorem names_insert_of_find? {name : String} {old : Field} {schema : Schema}
    (h : schema.find? name = some old) (field : Field) :
    (schema.insert name field).map (·.1) = schema.map (·.1) := by
  have hmem : name ∈ schema.names := List.mem_map_of_mem (f := (·.1)) (mem_of_find?_eq_some h)
  have hnames := names_insert name field schema
  rw [if_pos hmem] at hnames
  exact hnames

/-- A field and a layer of it, where both are there. -/
def mergeField? : Option Field → Option Field → Option Field
  | some base, some layer => some (mergeField base layer)
  | base, layer => base.or layer

@[simp] theorem mergeField?_none_left (layer : Option Field) : mergeField? none layer = layer := by
  cases layer <;> rfl

theorem find?_mergeFields (name : String) (base : Schema) (layer : List (String × Field))
    (hdistinct : (layer.map (·.1)).Nodup) :
    find? name (mergeFields base layer) = mergeField? (base.find? name) (find? name layer) := by
  induction layer generalizing base with
  | nil => cases h : base.find? name <;> simp [mergeFields, find?, mergeField?, h]
  | cons head rest ih =>
    obtain ⟨first, field⟩ := head
    obtain ⟨hnew, hrest⟩ := List.nodup_cons.mp hdistinct
    rw [mergeFields]
    split
    · rename_i old hold
      rw [ih _ hrest]
      by_cases hname : first = name
      · subst hname
        rw [find?_insert_self, find?_eq_none_iff.mpr hnew, hold, find?, if_pos rfl]
        rfl
      · rw [find?_insert_of_ne (Ne.symm hname), find?, if_neg hname]
    · rename_i hnone
      rw [ih _ hrest]
      by_cases hname : first = name
      · subst hname
        rw [find?_place_self (find?_eq_none_iff.mp hnone), find?_eq_none_iff.mpr hnew, hnone, find?,
          if_pos rfl]
        rfl
      · rw [find?_place_of_ne (Ne.symm hname), find?, if_neg hname]

/-- **What a merged schema declares.** A name of both sides has the field under the layer of it, any
other name the field that its side declares. -/
theorem find?_merge (name : String) (base : Schema) {layer : Schema} (hdistinct : (layer.map (·.1)).Nodup) :
    find? name (base.merge layer) = mergeField? (base.find? name) (layer.find? name) :=
  find?_mergeFields name base layer hdistinct

theorem mem_names_merge {name : String} {base layer : Schema} (hdistinct : (layer.map (·.1)).Nodup) :
    name ∈ (base.merge layer).map (·.1) ↔ name ∈ base.map (·.1) ∨ name ∈ layer.map (·.1) := by
  rw [← not_iff_not, not_or, ← find?_eq_none_iff, ← find?_eq_none_iff, ← find?_eq_none_iff,
    find?_merge name base hdistinct]
  cases base.find? name <;> cases layer.find? name <;> simp [mergeField?]

theorem names_sublist_mergeFields (base : Schema) (layer : List (String × Field)) :
    (base.map (·.1)).Sublist ((mergeFields base layer).map (·.1)) := by
  induction layer generalizing base with
  | nil => rw [mergeFields]
  | cons head rest ih =>
    obtain ⟨name, field⟩ := head
    rw [mergeFields]
    split
    · rename_i old hold
      have hrest := ih (base.insert name (mergeField old field))
      rwa [names_insert_of_find? hold] at hrest
    · exact ((sublist_place name field _ base).map _).trans (ih _)

/-- The names of a schema keep their order under a layer. -/
theorem names_sublist_merge (base layer : Schema) : (base.map (·.1)).Sublist ((base.merge layer).map (·.1)) :=
  names_sublist_mergeFields base layer

theorem nodup_names_mergeFields {base : Schema} (layer : List (String × Field))
    (hbase : (base.map (·.1)).Nodup) :
    ((mergeFields base layer).map (·.1)).Nodup := by
  induction layer generalizing base with
  | nil =>
    rw [mergeFields]
    exact hbase
  | cons head rest ih =>
    obtain ⟨name, field⟩ := head
    rw [mergeFields]
    split
    · rename_i old hold
      apply ih
      rwa [names_insert_of_find? hold]
    · rename_i hnone
      apply ih
      rw [((place_perm name field _ base).map _).nodup_iff, List.map_cons, List.nodup_cons]
      exact ⟨find?_eq_none_iff.mp hnone, hbase⟩

/-- A layer gives no name twice to a schema that has none twice. -/
theorem nodup_names_merge {base : Schema} (layer : Schema) (hbase : (base.map (·.1)).Nodup) :
    ((base.merge layer).map (·.1)).Nodup :=
  nodup_names_mergeFields layer hbase

/-- Fields of other names than those of a schema are put after it. -/
theorem mergeFields_eq_append {base : Schema} (layer : List (String × Field))
    (hdistinct : ((base ++ layer).map (·.1)).Nodup) : mergeFields base layer = base ++ layer := by
  induction layer generalizing base with
  | nil => rw [mergeFields, List.append_nil]
  | cons head rest ih =>
    obtain ⟨name, field⟩ := head
    rw [List.map_append, List.nodup_append] at hdistinct
    obtain ⟨hbase, hlayer, hapart⟩ := hdistinct
    have hnew : base.find? name = none :=
      find?_eq_none_iff.mpr fun hmem => hapart name hmem name List.mem_cons_self rfl
    -- what follows is as new as the field, so there is nothing to put it before
    have hanchor : base.anchor? (rest.map (·.1)) = none := by
      refine List.findSome?_eq_none_iff.mpr fun other hother => ?_
      refine List.findIdx?_eq_none_iff.mpr fun entry hentry => ?_
      exact decide_eq_false
        (hapart entry.1 (List.mem_map_of_mem hentry) other (List.mem_cons_of_mem _ hother))
    have hplace : base.place name field (rest.map (·.1)) = base ++ [(name, field)] := by
      rw [place, hanchor]
    have hall : ((base ++ [(name, field)] ++ rest).map (·.1)).Nodup := by
      rw [List.append_assoc, List.map_append, List.nodup_append]
      exact ⟨hbase, hlayer, hapart⟩
    rw [mergeFields, hnew]
    show mergeFields (base.place name field (rest.map (·.1))) rest = _
    rw [hplace, ih hall, List.append_assoc, List.singleton_append]

/-- A layer over nothing is the layer. -/
theorem nil_merge {layer : Schema} (hdistinct : (layer.map (·.1)).Nodup) : merge [] layer = layer :=
  mergeFields_eq_append layer hdistinct

/-! ### Merged shapes -/

/-- Whether a field has a shape iff it is an object or an array of objects. -/
def HasFittingShape (field : Field) : Prop := field.type.isObjectLike = field.shape.isSome

namespace HasFittingShape

variable {field : Field}

theorem shape_eq_none (h : HasFittingShape field) (hscalar : field.type.isObjectLike = false) :
    field.shape = none :=
  Option.isNone_iff_eq_none.mp (Option.isSome_eq_false_iff.mp (h.symm.trans hscalar))

theorem exists_shape (h : HasFittingShape field) (hobject : field.type.isObjectLike = true) :
    ∃ fields, field.shape = some fields :=
  Option.isSome_iff_exists.mp (h.symm.trans hobject)

theorem isObjectLike_of_shape (h : HasFittingShape field) {fields : Schema}
    (hshape : field.shape = some fields) :
    field.type.isObjectLike = true :=
  h.trans (Option.isSome_iff_exists.mpr ⟨fields, hshape⟩)

end HasFittingShape

theorem mergeField_eq_override (base layer : Field) :
    mergeField base layer =
      base.override layer (mergedShape base layer (merge (base.shape.getD []) (layer.shape.getD []))) := by
  cases layer with
  | mk type required shape key group sibling xpath extras transform fallback =>
    cases shape with
    | none => simp only [mergeField, Option.getD_none, merge_nil]
    | some fields => rw [mergeField, merge, Option.getD_some]

theorem hasFields_of_shape {field : Field} {first : String × Field} {rest : List (String × Field)}
    (hfits : HasFittingShape field) (hshape : field.shape = some (first :: rest)) :
    field.hasFields = true := by
  rw [HasFittingShape, hshape] at hfits
  simp [Field.hasFields, hfits, hshape]

theorem shape_getD_eq_nil {field : Field} (hfits : HasFittingShape field) (h : field.hasFields = false) :
    field.shape.getD [] = [] := by
  cases hshape : field.shape with
  | none => rfl
  | some fields =>
    cases fields with
    | nil => rfl
    | cons first rest =>
      rw [hasFields_of_shape hfits hshape] at h
      cases h

/-- Where shapes fit types, an object or an array under a layer has the merged shape. Under a scalar
it has none, unless its shape is without fields: that one is left behind. -/
theorem shape_mergeField {base layer : Field} (hbase : HasFittingShape base)
    (hlayer : HasFittingShape layer) :
    (mergeField base layer).shape =
      if layer.type.isObjectLike then some (merge (base.shape.getD []) (layer.shape.getD []))
      else if base.hasFields then none else base.shape := by
  rw [mergeField_eq_override]
  show mergedShape base layer _ = _
  rw [mergedShape]
  cases hkind : layer.type.isObjectLike with
  | true =>
    obtain ⟨fields, hfields⟩ := hlayer.exists_shape hkind
    by_cases hany : (base.hasFields || layer.hasFields) = true
    · rw [if_pos hany]
      rfl
    · -- without fields on either side the shape of the layer is left, which is empty as is the merged one
      rw [Bool.or_eq_true, not_or, Bool.not_eq_true, Bool.not_eq_true] at hany
      have hbaseEmpty := shape_getD_eq_nil hbase hany.1
      have hlayerEmpty := shape_getD_eq_nil hlayer hany.2
      rw [hany.1, hany.2, hbaseEmpty, hlayerEmpty, merge_nil]
      rw [hfields, Option.getD_some] at hlayerEmpty
      rw [hfields, hlayerEmpty]
      rfl
  | false =>
    have hnone : layer.shape = none := hlayer.shape_eq_none hkind
    have hlayerNone : layer.hasFields = false := by simp [Field.hasFields, hkind]
    rw [hlayerNone, Bool.or_false, hnone]
    rfl

/-- So an object or an array over one of them has the merged shape, and a scalar over a scalar has none. -/
theorem shape_mergeField_of_isObjectLike_eq {base layer : Field} (hbase : HasFittingShape base)
    (hlayer : HasFittingShape layer) (hkind : base.type.isObjectLike = layer.type.isObjectLike) :
    (mergeField base layer).shape =
      if layer.type.isObjectLike then some (merge (base.shape.getD []) (layer.shape.getD [])) else none := by
  rw [shape_mergeField hbase hlayer]
  cases hobject : layer.type.isObjectLike with
  | true => rfl
  | false =>
    have hnone : base.shape = none := hbase.shape_eq_none (hkind.trans hobject)
    rw [if_neg Bool.false_ne_true, if_neg Bool.false_ne_true, hnone, ite_self]

end InvoiceXml.Schema
