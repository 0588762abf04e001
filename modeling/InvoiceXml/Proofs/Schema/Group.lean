import InvoiceXml.Proofs.Schema.Composition
import InvoiceXml.Proofs.Schema.Extension
import Mathlib.Data.List.Nodup

/-!
# Groups of extended schemas

A schema that extends another binds the groups of the other, in their order, and others between
them. Where it composes no group is bound twice, so an added field binds none of the groups of the
other (`fieldsExtend_within`), and a group of the other follows the same groups as before.

* `boundGroups_sublist`: the groups of a schema are among those of one that extends it;
* **`siblingChain_of_sublist`**: groups that are registered keep their sibling chains when others
  are registered between them.
-/

namespace InvoiceXml

/-! ### Sibling chains -/

namespace GroupIndex

theorem chainAmong_bare (name : String) (groups : List Group) :
    chainAmong name (groups.map fun group => { group with members := [] }) = chainAmong name groups := by
  induction groups generalizing name with
  | nil => rfl
  | cons group rest ih =>
    rw [List.map_cons, chainAmong, chainAmong]
    split
    · cases group.sibling with
      | none => rfl
      | some sibling => exact congrArg _ (ih sibling)
    · exact ih name

/-- Members play no part in sibling chains. -/
theorem siblingChain_bare (name : String) (index : GroupIndex) :
    siblingChain name ⟨index.bare⟩ = siblingChain name index := by
  rw [siblingChain, siblingChain, bare, ← List.map_reverse, chainAmong_bare]

/-- Whether each group follows one of those before it; the list has the latest group first. -/
def FollowsEarlier : (latestFirst : List Group) → Prop
  | [] => True
  | group :: earlier =>
    (∀ sibling, group.sibling = some sibling → sibling ∈ earlier.map (·.name)) ∧ FollowsEarlier earlier

/-- Groups whose siblings come before them have chains of such groups. -/
theorem mem_of_mem_chainAmong {groups : List Group} (hfollows : FollowsEarlier groups) {name sibling : String}
    (h : sibling ∈ chainAmong name groups) : sibling ∈ groups.map (·.name) := by
  induction groups generalizing name with
  | nil => cases h
  | cons group earlier ih =>
    obtain ⟨hsibling, hearlier⟩ := hfollows
    rw [chainAmong] at h
    refine List.mem_cons_of_mem _ ?_
    split at h
    · split at h
      · rename_i next hnext
        rcases List.mem_cons.mp h with rfl | h
        · exact hsibling _ hnext
        · exact ih hearlier h
      · cases h
    · exact ih hearlier h

/-- A chain does not change when other groups come between. -/
theorem chainAmong_of_sublist {groups all : List Group} (h : groups.Sublist all)
    (hdistinct : (all.map (·.name)).Nodup) (hfollows : FollowsEarlier groups) {name : String}
    (hname : name ∈ groups.map (·.name)) : chainAmong name all = chainAmong name groups := by
  induction h generalizing name with
  | slnil => cases hname
  | cons other hsub ih =>
    obtain ⟨hother, hdistinct⟩ := List.nodup_cons.mp hdistinct
    have hne : other.name ≠ name := by
      rintro rfl
      exact hother ((hsub.map _).subset hname)
    rw [chainAmong, if_neg hne]
    exact ih hdistinct hfollows hname
  | cons_cons group hsub ih =>
    obtain ⟨-, hdistinct⟩ := List.nodup_cons.mp hdistinct
    obtain ⟨hsibling, hfollows⟩ := hfollows
    rw [chainAmong, chainAmong]
    split
    · cases hnext : group.sibling with
      | none => rfl
      | some sibling => exact congrArg _ (ih hdistinct hfollows (hsibling sibling hnext))
    · rename_i hne
      exact ih hdistinct hfollows ((List.mem_cons.mp hname).resolve_left (Ne.symm hne))

end GroupIndex

/-- Groups that can be registered have names of their own. -/
theorem nodup_of_registers {known groups : List Group} (h : registers known groups = true) :
    (groups.map (·.name)).Nodup ∧ ∀ name ∈ groups.map (·.name), name ∉ known.map (·.name) := by
  induction groups generalizing known with
  | nil => simp
  | cons group rest ih =>
    rw [registers, Bool.and_eq_true, Bool.and_eq_true] at h
    obtain ⟨⟨hnew, -⟩, hrest⟩ := h
    obtain ⟨hdistinct, hknown⟩ := ih hrest
    have hname : group.name ∉ known.map (·.name) := by
      simpa [List.find?_eq_none] using hnew
    simp only [List.map_append, List.mem_append, not_or] at hknown
    refine ⟨List.nodup_cons.mpr ⟨fun hmem => (hknown _ hmem).2 (by simp), hdistinct⟩, fun name hmem => ?_⟩
    rcases List.mem_cons.mp hmem with rfl | hmem
    · exact hname
    · exact (hknown name hmem).1

/-- Groups that can be registered follow groups before them. -/
theorem followsEarlier_of_registers {known groups : List Group}
    (hknown : GroupIndex.FollowsEarlier known.reverse) (h : registers known groups = true) :
    GroupIndex.FollowsEarlier (known ++ groups).reverse := by
  induction groups generalizing known with
  | nil => rwa [List.append_nil]
  | cons group rest ih =>
    rw [registers, Bool.and_eq_true, Bool.and_eq_true] at h
    obtain ⟨⟨-, hsibling⟩, hrest⟩ := h
    have hnext : GroupIndex.FollowsEarlier (known ++ [group]).reverse := by
      rw [List.reverse_append, List.reverse_singleton, List.singleton_append]
      refine ⟨fun sibling hsome => ?_, hknown⟩
      rw [hsome] at hsibling
      obtain ⟨other, hother, -⟩ := Option.any_eq_true _ _ |>.mp hsibling
      have hmem := List.mem_of_find?_eq_some hother
      have hname := List.find?_some hother
      rw [List.map_reverse, List.mem_reverse]
      exact eq_of_beq hname ▸ List.mem_map_of_mem (f := (·.name)) hmem
    rw [List.append_cons]
    exact ih hnext hrest

/-- **Chains stay.** Groups that can be registered keep their sibling chains when others are
registered between them, and the chains are made of them. -/
theorem siblingChain_of_sublist {groups all : List Group} (h : groups.Sublist all)
    (hgroups : registers [] groups = true) (hall : registers [] all = true) {name : String}
    (hname : name ∈ groups.map (·.name)) :
    GroupIndex.siblingChain name ⟨all⟩ = GroupIndex.siblingChain name ⟨groups⟩ ∧
      ∀ sibling ∈ GroupIndex.siblingChain name ⟨groups⟩, sibling ∈ groups.map (·.name) := by
  have hnone : GroupIndex.FollowsEarlier ([] : List Group).reverse := trivial
  have hfollows : GroupIndex.FollowsEarlier groups.reverse := followsEarlier_of_registers hnone hgroups
  have hdistinct : (all.reverse.map (·.name)).Nodup := by
    rw [List.map_reverse]
    exact List.nodup_reverse.mpr (nodup_of_registers hall).1
  refine ⟨GroupIndex.chainAmong_of_sublist h.reverse hdistinct hfollows (by simpa using hname), ?_⟩
  intro sibling hsibling
  simpa using GroupIndex.mem_of_mem_chainAmong hfollows hsibling

/-! ### Groups of fields -/

namespace Schema

mutual

/-- The names of the groups that a field and the fields in its shape bind. -/
def fieldGroups : Field → List String
  | { shape := none, .. } => []
  | { type, group, shape := some fields, .. } => (Field.boundGroup? { type, group }).toList ++
    groupNames fields

/-- The names of the groups that fields bind, at every depth. -/
def groupNames : List (String × Field) → List String
  | [] => []
  | (_, field) :: rest => fieldGroups field ++ groupNames rest

end

theorem fieldGroups_of_shape {field : Field} {fields : Schema} (h : field.shape = some fields) :
    fieldGroups field = field.boundGroup?.toList ++ groupNames fields := by
  cases field with
  | mk type required shape key group sibling xpath extras transform fallback =>
    obtain rfl : shape = some fields := h
    rfl

/-- The groups of a field are its own and those of its shape. -/
theorem groups_entriesOfField (names scope : List String) (field : Field) :
    (entriesOfField names scope field).filterMap Entry.group? =
      (Entry.group? { names, scope, field }).toList ++
        (entriesBelow names (scope ++ field.boundGroup?.toList) (field.shape.getD [])).filterMap
          Entry.group? := by
  rw [entriesOfField_eq_cons, List.filterMap_cons]
  cases Entry.group? { names, scope, field } <;> rfl

/-- The group of an entry is that which its field binds. -/
theorem names_group? {field : Field} {fields : Schema} (h : field.shape = some fields)
    (names scope : List String) :
    (Entry.group? { names, scope, field }).toList.map (·.name) = field.boundGroup?.toList := by
  rw [Entry.group?, h]
  cases field.boundGroup? <;> rfl

mutual

theorem names_groups_field : ∀ (field : Field) (names scope : List String),
    ((entriesOfField names scope field).filterMap Entry.group?).map (·.name) = fieldGroups field
  | { type, required, shape, key, group, sibling, xpath, extras, transform, fallback }, names, scope => by
    cases shape with
    | none => rfl
    | some fields =>
      rw [groups_entriesOfField, List.map_append, names_group? rfl, fieldGroups_of_shape rfl]
      exact congrArg _ (names_groups fields names _)

/-- The names of the groups of fields are those of the groups of their entries. -/
theorem names_groups : ∀ (fields : List (String × Field)) (names scope : List String),
    ((entriesBelow names scope fields).filterMap Entry.group?).map (·.name) = groupNames fields
  | [], _, _ => rfl
  | (name, field) :: rest, names, scope => by
    rw [entriesBelow, List.filterMap_append, List.map_append, names_groups_field field, names_groups rest]
    rfl

end

/-! ### Extensions -/

/-- Whether two fields bind the same group, after the same one. -/
def SameGroup (field other : Field) : Prop :=
  field.boundGroup? = other.boundGroup? ∧ field.sibling = other.sibling

variable {related : Field → Field → Prop} {added : Field → Prop}

theorem group?_congr {old field : Field} (hgroup : SameGroup old field)
    (hshape : ShapeExtends related added old.shape field.shape) (names scope : List String) :
    Entry.group? { names, scope, field := old } = Entry.group? { names, scope, field } := by
  rw [Entry.group?, Entry.group?, hgroup.1, hgroup.2]
  rcases shapeExtends_iff.mp hshape with ⟨hold, hfield⟩ | ⟨below, fields, hold, hfield, -⟩
  · rw [hold, hfield]
  · rw [hold, hfield]
    cases field.boundGroup? <;> rfl

mutual

theorem groups_sublist_field (hgroup : ∀ old field, related old field → SameGroup old field) :
    ∀ (field : Field) {old : Field} (names scope : List String), FieldExtends related added old field →
      ((entriesOfField names scope old).filterMap Entry.group?).Sublist
        ((entriesOfField names scope field).filterMap Entry.group?)
  | { type, required, shape, key, group, sibling, xpath, extras, transform, fallback }, old, names,
    scope, h => by
    obtain ⟨hrelated, hshape⟩ := fieldExtends_iff.mp h
    rw [groups_entriesOfField, groups_entriesOfField, group?_congr (hgroup _ _ hrelated) hshape,
      (hgroup _ _ hrelated).1]
    refine List.Sublist.append_left ?_ _
    exact groups_sublist_shape hgroup shape names _ hshape

theorem groups_sublist_shape (hgroup : ∀ old field, related old field → SameGroup old field) :
    ∀ (shape : Option (List (String × Field))) {old : Option Schema} (names scope : List String),
      ShapeExtends related added old shape →
        ((entriesBelow names scope (old.getD [])).filterMap Entry.group?).Sublist
          ((entriesBelow names scope (shape.getD [])).filterMap Entry.group?)
  | none, old, names, scope, h => by
    rcases shapeExtends_iff.mp h with ⟨rfl, -⟩ | ⟨_, _, -, hother, -⟩
    · exact List.Sublist.refl _
    · cases hother
  | some fields, old, names, scope, h => by
    rcases shapeExtends_iff.mp h with ⟨-, hother⟩ | ⟨below, found, rfl, hfound, h⟩
    · cases hother
    · obtain rfl := Option.some.inj hfound
      exact groups_sublist hgroup fields names scope h

/-- The groups of fields are among those of fields that extend them. -/
theorem groups_sublist (hgroup : ∀ old field, related old field → SameGroup old field) :
    ∀ (fields : List (String × Field)) {base : Schema} (names scope : List String),
      FieldsExtend related added base fields →
        ((entriesBelow names scope base).filterMap Entry.group?).Sublist
          ((entriesBelow names scope fields).filterMap Entry.group?)
  | [], base, names, scope, h => by
    obtain rfl : base = [] := h
    exact List.Sublist.refl _
  | (name, field) :: rest, base, names, scope, h => by
    rw [entriesBelow, List.filterMap_append]
    rcases h with ⟨old, others, rfl, hold, hothers⟩ | ⟨-, hbase⟩
    · rw [entriesBelow, List.filterMap_append]
      exact (groups_sublist_field hgroup field _ scope hold).append
        (groups_sublist hgroup rest names scope hothers)
    · exact (groups_sublist hgroup rest names scope hbase).trans (List.sublist_append_right _ _)

end

/-- The groups of a schema are among those of one that extends it. -/
theorem boundGroups_sublist (hgroup : ∀ old field, related old field → SameGroup old field)
    {base fields : Schema} (h : FieldsExtend related added base fields) :
    base.boundGroups.Sublist (boundGroups fields) :=
  groups_sublist hgroup fields [] [] h

theorem groupNames_sublist (hgroup : ∀ old field, related old field → SameGroup old field) {base : Schema}
    {fields : List (String × Field)} (h : FieldsExtend related added base fields) :
    (groupNames base).Sublist (groupNames fields) := by
  rw [← names_groups base [] [], ← names_groups fields [] []]
  exact (groups_sublist hgroup fields [] [] h).map _

theorem fieldGroups_sublist (hgroup : ∀ old field, related old field → SameGroup old field)
    {old field : Field} (h : FieldExtends related added old field) :
    (fieldGroups old).Sublist (fieldGroups field) := by
  rw [← names_groups_field old [] [], ← names_groups_field field [] []]
  exact (groups_sublist_field hgroup field [] [] h).map _

/-! ### Known groups -/

section Known

variable (known : List String) (related : Field → Field → Prop) (added : Field → Prop)

/-- What is related binds known groups only. -/
def RelatedWithin (old field : Field) : Prop := related old field ∧ ∀ group ∈ fieldGroups old, group ∈ known

/-- What is added binds new groups only. -/
def AddedOutside (field : Field) : Prop := added field ∧ ∀ group ∈ fieldGroups field, group ∉ known

end Known

variable {known : List String}

mutual

theorem fieldExtends_within (hgroup : ∀ old field, related old field → SameGroup old field) :
    ∀ (field : Field) {old : Field}, FieldExtends related added old field → (fieldGroups field).Nodup →
      (∀ group ∈ fieldGroups old, group ∈ known) →
      (∀ group ∈ fieldGroups field, group ∈ known → group ∈ fieldGroups old) →
        FieldExtends (RelatedWithin known related) (AddedOutside known added) old field
  | { type, required, shape, key, group, sibling, xpath, extras, transform, fallback }, old, h, hdistinct,
      hknown, honly => by
    obtain ⟨hrelated, hshape⟩ := fieldExtends_iff.mp h
    refine fieldExtends_iff.mpr ⟨⟨hrelated, hknown⟩, ?_⟩
    rcases shapeExtends_iff.mp hshape with ⟨hold, hnone⟩ | ⟨below, fields, hold, hfields, hextends⟩
    · exact shapeExtends_iff.mpr (.inl ⟨hold, hnone⟩)
    · obtain rfl : shape = some fields := hfields
      have hbound := (hgroup _ _ hrelated).1
      rw [fieldGroups_of_shape hold, hbound] at hknown honly
      rw [fieldGroups_of_shape rfl] at hdistinct honly
      refine shapeExtends_iff.mpr (.inr ⟨below, fields, hold, rfl, ?_⟩)
      refine fieldsExtend_within hgroup fields hextends hdistinct.of_append_right
        (fun group hmem => hknown group (List.mem_append_right _ hmem)) fun group hmem hin => ?_
      refine (List.mem_append.mp (honly group (List.mem_append_right _ hmem) hin)).resolve_left fun hown => ?_
      exact List.disjoint_of_nodup_append hdistinct hown hmem

/-- Where no group is bound twice and the known ones are those of a schema, what extends the schema
binds them in the same places and no others that are known. -/
theorem fieldsExtend_within (hgroup : ∀ old field, related old field → SameGroup old field) :
    ∀ (fields : List (String × Field)) {base : Schema}, FieldsExtend related added base fields →
      (groupNames fields).Nodup → (∀ group ∈ groupNames base, group ∈ known) →
      (∀ group ∈ groupNames fields, group ∈ known → group ∈ groupNames base) →
        FieldsExtend (RelatedWithin known related) (AddedOutside known added) base fields
  | [], base, h, _, _, _ => h
  | (name, field) :: rest, base, h, hdistinct, hknown, honly => by
    have hdisjoint :=
      List.disjoint_of_nodup_append (show (fieldGroups field ++ groupNames rest).Nodup from hdistinct)
    have hfieldDistinct : (fieldGroups field).Nodup := List.Nodup.of_append_left hdistinct
    have hrestDistinct : (groupNames rest).Nodup := List.Nodup.of_append_right hdistinct
    have hfieldOnly : ∀ group ∈ fieldGroups field, group ∈ known → group ∈ groupNames base :=
      fun group hmem => honly group (List.mem_append_left _ hmem)
    have hrestOnly : ∀ group ∈ groupNames rest, group ∈ known → group ∈ groupNames base :=
      fun group hmem => honly group (List.mem_append_right _ hmem)
    rcases h with ⟨old, others, rfl, hold, hothers⟩ | ⟨hfield, hbase⟩
    · have holdGroups := (fieldGroups_sublist hgroup hold).subset
      have hothersGroups := (groupNames_sublist hgroup hothers).subset
      refine .inl ⟨old, others, rfl, fieldExtends_within hgroup field hold hfieldDistinct
        (fun group hmem => hknown group (List.mem_append_left _ hmem)) ?_,
        fieldsExtend_within hgroup rest hothers hrestDistinct
          (fun group hmem => hknown group (List.mem_append_right _ hmem)) ?_⟩
      · intro group hmem hin
        exact (List.mem_append.mp (hfieldOnly group hmem hin)).resolve_right fun h =>
          hdisjoint hmem (hothersGroups h)
      · intro group hmem hin
        exact (List.mem_append.mp (hrestOnly group hmem hin)).resolve_left fun h =>
          hdisjoint (holdGroups h) hmem
    · have hbaseGroups := (groupNames_sublist hgroup hbase).subset
      refine .inr ⟨⟨hfield, fun group hmem hin => ?_⟩,
        fieldsExtend_within hgroup rest hbase hrestDistinct hknown hrestOnly⟩
      exact hdisjoint hmem (hbaseGroups (hfieldOnly group hmem hin))

end

end Schema

end InvoiceXml
