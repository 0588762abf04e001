import InvoiceXml.Proofs.Assembly.Instance
import InvoiceXml.Proofs.Schema.Chain
import Mathlib.Algebra.Ring.Nat

/-!
# Where the items of a group start

A frame only knows where the groups that were met leave off. In a composed schema a group follows
one that is met before it in the same scope, and so it starts behind the items of all groups in its
sibling chain.

* `base_foldl_advance`: the first number is the sum over the chain, if each group is met after the
  one that it follows;
* `meetsWithin`: the groups that are met in a scope are those that have the same groups around them,
  in order;
* **`binds_iff_of_compose`**: the items of a group are bound to the numbers that follow the items of
  its chain.
-/

namespace InvoiceXml.Assembly

open Schema
  (groupsBelow groupsBelow_cons groupsBelow_append scope_prefix_of_mem_groupsBelow FieldsHold FieldHolds)

variable {groups : GroupIndex} {group : String}

/-! ### From frames to sums -/

section Counts

/-- How many items a group has among counts. -/
def countOf (counts : List (String × Nat)) (group : String) : Nat := (counts.lookup group).getD 0

/-- How many items the groups in the chain of a group have together. -/
def offset (groups : GroupIndex) (counts : List (String × Nat)) (group : String) : Nat :=
  ((groups.siblingChain group).map (countOf counts)).sum

/-- Whether counts are of different groups, each behind the one that it follows. -/
structure Successive (groups : GroupIndex) (counts : List (String × Nat)) : Prop where
  distinct : (counts.map (·.1)).Nodup
  earlier : ∀ before group n after, counts = before ++ (group, n) :: after →
    ∀ sibling, groups.sibling? group = some sibling → sibling ∈ before.map (·.1)

variable {counts before after : List (String × Nat)} {n : Nat}

theorem countOf_of_mem (hdistinct : (counts.map (·.1)).Nodup) (h : (group, n) ∈ counts) :
    countOf counts group = n := by
  obtain ⟨before, after, rfl⟩ := List.append_of_mem h
  rw [List.map_append, List.map_cons, List.nodup_append] at hdistinct
  have hlookup : (before ++ (group, n) :: after).lookup group = some n := by
    refine List.lookup_eq_some_iff.mpr ⟨before, after, rfl, fun count hcount => ?_⟩
    simpa using (hdistinct.2.2 _ (List.mem_map_of_mem hcount) _ List.mem_cons_self).symm
  rw [countOf, hlookup, Option.getD_some]

variable (hregisters : registers [] groups.bare = true)

include hregisters

theorem offset_of_sibling {sibling : String} (h : groups.sibling? group = some sibling) :
    offset groups counts group = countOf counts sibling + offset groups counts sibling := by
  rw [offset, GroupIndex.siblingChain_of_sibling hregisters h, List.map_cons, List.sum_cons, offset]

theorem offset_of_none (h : groups.sibling? group = none) : offset groups counts group = 0 := by
  rw [offset, GroupIndex.siblingChain_of_none hregisters h, List.map_nil, List.sum_nil]

/-- A group starts behind its chain, if the frame knows where the group leaves off that it follows. -/
theorem base_eq_offset {frame : Frame}
    (hframe : ∀ sibling, groups.sibling? group = some sibling →
      frame.lookup sibling = some (offset groups counts sibling + countOf counts sibling)) :
    base groups group frame = offset groups counts group := by
  rw [base]
  cases hsibling : groups.sibling? group with
  | none =>
    rw [GroupIndex.siblingChain_of_none hregisters hsibling, offset_of_none hregisters hsibling]
    rfl
  | some sibling =>
    rw [GroupIndex.siblingChain_of_sibling hregisters hsibling, offset_of_sibling hregisters hsibling,
      List.findSome?_cons, hframe sibling hsibling, Option.getD_some, Nat.add_comm]

/-- The frame knows where each group leaves off that was met. -/
theorem lookup_foldl_advance (hcounts : Successive groups counts) (hsplit : counts = before ++ after)
    (hmem : group ∈ before.map (·.1)) :
    (before.foldl (advance groups) []).lookup group =
      some (offset groups counts group + countOf counts group) := by
  induction before using List.reverseRecOn generalizing after group with
  | nil => cases hmem
  | append_singleton init count ih =>
    obtain ⟨last, n⟩ := count
    rw [List.append_assoc, List.singleton_append] at hsplit
    have hinit : ∀ {group}, group ∈ init.map (·.1) → (init.foldl (advance groups) []).lookup group =
        some (offset groups counts group + countOf counts group) := ih hsplit
    rw [List.foldl_append, List.foldl_cons, List.foldl_nil, advance, Frame.set]
    by_cases hlast : group = last
    · subst hlast
      have hbase := base_eq_offset hregisters fun sibling hsibling =>
        hinit (hcounts.earlier init group n after hsplit sibling hsibling)
      have hcount : countOf counts group = n := countOf_of_mem hcounts.distinct (by simp [hsplit])
      rw [List.lookup_cons_self, hbase, hcount]
    · have hne : (group == last) = false := by simpa using hlast
      rw [List.lookup_cons, hne]
      exact hinit (by simpa [hlast] using hmem)

/-- **The first number is the sum over the chain.** -/
theorem base_foldl_advance (hcounts : Successive groups counts)
    (hsplit : counts = before ++ (group, n) :: after) :
    base groups group (before.foldl (advance groups) []) = offset groups counts group :=
  base_eq_offset hregisters fun sibling hsibling =>
    lookup_foldl_advance hregisters hcounts hsplit
      (hcounts.earlier before group n after hsplit sibling hsibling)

end Counts

/-! ### The groups that are met -/

variable {value : Option Data} {field : Field} {fields below : List (String × Field)} {data : Data}
  {scope : Scope}
  {frame found : Frame} {visit : Visit} {names : List String}

theorem fieldCounts_bound (hgroup : field.boundGroup? = some group) (hshape : field.shape = some below) :
    fieldCounts value field = [(group, (itemsOf value).length)] := by
  obtain ⟨htype, hgroup⟩ := Field.boundGroup?_eq_some_iff.mp hgroup
  cases field
  subst htype hgroup hshape
  rfl

theorem fieldCounts_object (htype : field.type = .object) (hshape : field.shape = some below) :
    fieldCounts value field = itemCounts (value.getD (.obj [])) below := by
  cases field
  subst htype hshape
  rfl

theorem mem_itemCounts {count : String × Nat} : count ∈ itemCounts data fields ↔
    ∃ name field, (name, field) ∈ fields ∧ count ∈ fieldCounts (data.present? name) field := by
  induction fields with
  | nil => simp [itemCounts]
  | cons head rest ih =>
    obtain ⟨name, field⟩ := head
    rw [itemCounts, List.mem_append, ih]
    constructor
    · rintro (h | ⟨other, found, hmem, h⟩)
      · exact ⟨name, field, List.mem_cons_self, h⟩
      · exact ⟨other, found, List.mem_cons_of_mem _ hmem, h⟩
    · rintro ⟨other, found, hmem, h⟩
      rcases List.mem_cons.mp hmem with heq | hmem
      · obtain ⟨rfl, rfl⟩ := Prod.mk.inj heq
        exact .inl h
      · exact .inr ⟨other, found, hmem, h⟩

/-- Inside a field that binds no number the counts are those of the field, or there are no groups at all. -/
theorem Inside.itemCounts {bindings innerBindings : Bindings} {path innerPath : FieldPath} {innerData : Data}
    {innerFrame : Frame}
    (h : Inside groups bindings path value field frame innerBindings innerPath innerData innerFrame)
    (hbound : field.boundGroup? = none) (hshape : field.shape = some below)
    (hnests : field.NestsGroups names) :
    innerFrame = frame ∧ fieldCounts value field = Assembly.itemCounts innerData below ∨
      Schema.groupNames below = [] := by
  cases h with
  | object htype => exact .inl ⟨rfl, fieldCounts_object htype hshape⟩
  | shared htype hgroupless =>
    have hgroups := hnests htype hgroupless
    rw [Schema.fieldGroups_of_shape hshape, List.append_eq_nil_iff] at hgroups
    exact .inr hgroups.2
  | bound htype hbinds => cases hbound.symm.trans (Field.boundGroup?_eq_some_iff.mpr ⟨htype, hbinds⟩)

/-- A group that is met has its place among the counts, and its frame is that of the counts before it. -/
theorem Scope.Meets.exists_itemCounts (h : scope.Meets groups frame visit found)
    (hnests : FieldsHold Field.NestsGroups names scope.fields) (hgroup : visit.field.boundGroup? = some group)
    (hshape : visit.field.shape = some below) :
    ∃ before after, itemCounts scope.data scope.fields =
      before ++ (group, (itemsOf visit.value).length) :: after ∧
      found = before.foldl (advance groups) frame := by
  induction h generalizing names with
  | @own scope frame before after name field hfields =>
    rw [hfields] at hnests
    obtain ⟨hbefore, -⟩ := hnests.split
    refine ⟨itemCounts scope.data before, itemCounts scope.data after, ?_, frameAfterFields_eq _ _ _ hbefore⟩
    rw [hfields, itemCounts_append, itemCounts]
    exact congrArg _ (congrArg (· ++ _) (fieldCounts_bound hgroup hshape))
  | @inside scope inner frame innerFrame found before after name field visit hfields hbound
      hinnerShape hinside _ ih =>
    rw [hfields] at hnests
    obtain ⟨hbefore, hnone, hbelow⟩ := hnests.split
    obtain ⟨earlier, later, hcounts, rfl⟩ := ih (hbelow inner.fields hinnerShape) hgroup hshape
    rcases hinside.itemCounts hbound hinnerShape hnone with ⟨rfl, hfield⟩ | hgroupless
    · refine ⟨itemCounts scope.data before ++ earlier, later ++ itemCounts scope.data after, ?_, ?_⟩
      · rw [hfields, itemCounts_append, itemCounts, hfield, hcounts]
        simp
      · rw [List.foldl_append, frameAfterFields_eq _ _ _ hbefore]
    · have hmem := names_itemCounts_subset inner.data inner.fields
        (List.mem_map_of_mem (hcounts ▸ List.mem_append_right _ List.mem_cons_self))
      rw [hgroupless] at hmem
      cases hmem

/-- Each group among the counts is met, and has as many items. -/
theorem Scope.exists_meets_of_mem_itemCounts : ∀ (fields : List (String × Field)) {bindings : Bindings}
    {path : FieldPath} {data : Data} (frame : Frame) {n : Nat}, (group, n) ∈ itemCounts data fields →
      ∃ visit found below, Scope.Meets groups ⟨bindings, path, data, fields⟩ frame visit found ∧
        visit.field.boundGroup? = some group ∧ visit.field.shape = some below ∧
          (itemsOf visit.value).length = n := by
  refine Schema.induction_on_shapes fun fields ih => ?_
  intro bindings path data frame n h
  obtain ⟨name, field, hmem, hcount⟩ := mem_itemCounts.mp h
  obtain ⟨before, after, hfields⟩ := List.append_of_mem hmem
  cases hshape : field.shape with
  | none =>
    cases field
    subst hshape
    rename_i type _ _ _ _ _ _ _ _
    cases type <;> cases hcount
  | some below =>
    cases htype : field.type with
    | scalar _ | choice _ =>
      cases field
      subst htype
      cases hcount
    | object =>
      rw [fieldCounts_object htype hshape] at hcount
      obtain ⟨visit, found, inner, hmeets, hgroup⟩ := ih name field below hmem hshape _ hcount
      have hbound : field.boundGroup? = none := by simp [Field.boundGroup?, htype]
      exact ⟨visit, found, inner, .inside hfields hbound hshape (.object htype) hmeets, hgroup⟩
    | objectArray =>
      cases hbinds : field.group with
      | none =>
        cases field
        subst htype hbinds hshape
        cases hcount
      | some bound =>
        have hbound := Field.boundGroup?_eq_some_iff.mpr ⟨htype, hbinds⟩
        rw [fieldCounts_bound hbound hshape, List.mem_singleton] at hcount
        obtain ⟨rfl, rfl⟩ := Prod.mk.inj hcount
        exact ⟨_, _, below, .own hfields, hbound, hshape, rfl⟩

/-! ### The groups of a scope -/

/-- The groups that have certain groups around them. -/
def within (around : List String) (all : List Group) : List Group :=
  all.filter fun group => group.scope = around

theorem within_append (around : List String) (first second : List Group) :
    within around (first ++ second) = within around first ++ within around second := List.filter_append ..

section Within

variable {around : List String}

theorem within_groupsBelow_inside (group : String) (fields : List (String × Field)) :
    within around (groupsBelow names (around ++ [group]) fields) = [] := by
  refine List.filter_eq_nil_iff.mpr fun other hother h => ?_
  have hlength := (scope_prefix_of_mem_groupsBelow fields hother).length_le
  rw [of_decide_eq_true h, List.length_append, List.length_singleton] at hlength
  omega

/-- Whether the groups that are met in objects with certain fields are those that have the same
groups around them. -/
def MeetsWithin (fields : List (String × Field)) : Prop :=
  ∀ names around data, Schema.WellFormed fields → FieldsHold Field.NestsGroups names fields →
    (within around (groupsBelow names around fields)).map (·.name) = (itemCounts data fields).map (·.1)

theorem names_within_field (hbelow : ∀ below, field.shape = some below → MeetsWithin below)
    (hformed : field.WellFormed) (hnests : FieldHolds Field.NestsGroups names field) (value : Option Data) :
    (within around ((Entry.group? { names, scope := around, field }).toList ++
      groupsBelow names (around ++ field.boundGroup?.toList) (field.shape.getD []))).map (·.name) =
        (fieldCounts value field).map (·.1) := by
  obtain ⟨hnone, hinner⟩ := Schema.fieldHolds_iff_shape.mp hnests
  cases hobject : field.type.isObjectLike with
  | false =>
    have hshape := Field.shape_eq_none_of_wellFormed hformed hobject
    rw [Entry.group?, hshape]
    cases field
    subst hshape
    rename_i type _ _ _ _ _ _ _ _
    cases type <;> rfl
  | true =>
    obtain ⟨below, hshape, hbelowFormed⟩ := Field.exists_shape_of_wellFormed hformed hobject
    rw [hshape, Option.getD_some]
    cases hbound : field.boundGroup? with
    | some group =>
      rw [Schema.group?_of_boundGroup? hbound hshape, fieldCounts_bound hbound hshape, within_append,
        Option.toList_some, Option.toList_some, within_groupsBelow_inside, within]
      simp
    | none =>
      rw [Schema.group?_eq_none hbound, Option.toList_none, Option.toList_none, List.nil_append,
        List.append_nil]
      cases htype : field.type with
      | scalar _ | choice _ =>
        rw [htype] at hobject
        cases hobject
      | object =>
        rw [fieldCounts_object htype hshape]
        exact hbelow below hshape names around _ hbelowFormed (hinner below hshape)
      | objectArray =>
        -- neither are groups declared below nor any met
        have hgroupless : field.group = none := Option.eq_none_iff_forall_ne_some.mpr fun group hbinds => by
          cases hbound.symm.trans (Field.boundGroup?_eq_some_iff.mpr ⟨htype, hbinds⟩)
        have hgroups := hnone htype hgroupless
        have hcounts : (fieldCounts value field).map (·.1) = [] :=
          List.subset_nil.mp (hgroups ▸ names_fieldCounts_subset value field)
        rw [Schema.fieldGroups_of_shape hshape, List.append_eq_nil_iff,
          ← Schema.names_groupsBelow names around, List.map_eq_nil_iff] at hgroups
        rw [hcounts, hgroups.2]
        rfl

/-- **The groups that are met in a scope are those declared in it**, in the same order. -/
theorem meetsWithin : ∀ fields : List (String × Field), MeetsWithin fields := by
  refine Schema.induction_on_shapes fun fields ih => ?_
  intro names around data hformed hnests
  induction fields with
  | nil => rfl
  | cons head rest ihRest =>
    obtain ⟨name, field⟩ := head
    obtain ⟨-, hfield, hrest⟩ := hformed
    have hbelow := fun below => ih name field below List.mem_cons_self
    have ih := fun name field below hmem => ih name field below (List.mem_cons_of_mem _ hmem)
    rw [groupsBelow_cons, ← List.append_assoc, within_append, List.map_append, ihRest ih hrest hnests.2,
      names_within_field hbelow hfield hnests.1 (data.present? name), itemCounts, List.map_append]

end Within

/-! ### Where a scope is declared -/

/-- How many items a group has in a scope. There are none where the value of its field is missing or
null, and a value that is not an array counts as one. -/
def Scope.count (scope : Scope) (group : String) : Nat := countOf (itemCounts scope.data scope.fields) group

/-- The groups around a scope, outermost first. -/
def Scope.around (scope : Scope) : List String := (scope.bindings.map (·.1)).reverse

theorem Scope.Item.around_eq {i : Nat} {inner : Scope} (h : scope.Item groups group i inner) :
    inner.around = scope.around ++ [group] := by
  cases h
  rw [around, List.map_cons, List.reverse_cons]
  rfl

/-- Where the fields of a scope are declared: their groups are one stretch of those of the schema,
and no group before them has the same groups around it. -/
structure Scope.Declared (schema : Schema) (names : List String) (before after : List Group) (scope : Scope) :
    Prop where
  formed : Schema.WellFormed scope.fields
  nests : FieldsHold Field.NestsGroups names scope.fields
  groups : schema.boundGroups = before ++ (groupsBelow names scope.around scope.fields ++ after)
  apart : ∀ group ∈ before, group.scope ≠ scope.around

/-- A group that is met is declared with the groups of its shape behind it. -/
theorem Scope.Meets.exists_groupsBelow (h : scope.Meets groups frame visit found) (around : List String)
    (hformed : Schema.WellFormed scope.fields) (hnests : FieldsHold Field.NestsGroups names scope.fields)
    (hgroup : visit.field.boundGroup? = some group) (hshape : visit.field.shape = some below) :
    ∃ innerNames before declared after, groupsBelow names around scope.fields =
        before ++ declared :: (groupsBelow innerNames (around ++ [group]) below ++ after) ∧
      declared.name = group ∧ declared.scope = around ∧ Schema.WellFormed below ∧
        FieldsHold Field.NestsGroups innerNames below := by
  induction h generalizing names with
  | @own scope frame before after name field hfields =>
    rw [hfields] at hformed hnests
    have hfield := hformed.field (List.mem_append_right before List.mem_cons_self)
    have hbelow := (Field.wellFormed_iff.mp hfield).2 below hshape
    obtain ⟨-, -, hinner⟩ := hnests.split
    change field.boundGroup? = some group at hgroup
    change field.shape = some below at hshape
    have hgroups := groupsBelow_append names around before ((name, field) :: after)
    rw [groupsBelow_cons, Schema.group?_of_boundGroup? hgroup hshape, hgroup, hshape] at hgroups
    exact ⟨names ++ [name], _, _, _, hfields ▸ hgroups, rfl, rfl, hbelow, hinner below hshape⟩
  | @inside scope inner frame innerFrame found before after name field visit hfields hbound
      hinnerShape hinside _ ih =>
    rw [hfields] at hformed hnests
    have hfield := hformed.field (List.mem_append_right before List.mem_cons_self)
    have hbelow := (Field.wellFormed_iff.mp hfield).2 inner.fields hinnerShape
    obtain ⟨-, -, hinner⟩ := hnests.split
    obtain ⟨innerNames, earlier, declared, later, hgroups, hdeclared⟩ :=
      ih hbelow (hinner inner.fields hinnerShape) hgroup hshape
    refine ⟨innerNames, groupsBelow names around before ++ earlier, declared,
      later ++ groupsBelow names around after, ?_, hdeclared⟩
    rw [hfields, groupsBelow_append, groupsBelow_cons, Schema.group?_eq_none hbound, hbound, hinnerShape,
      Option.toList_none, Option.toList_none, List.append_nil, Option.getD_some, hgroups]
    simp

section Composed

variable {schema : Schema} {composed : ComposedSchema} (hcompose : schema.compose = .ok composed)

include hcompose

/-- Up to a group there is none that has it around it. -/
theorem scope_ne_of_before {before after : List Group} {declared : Group} {around : List String}
    (hgroups : schema.boundGroups = before ++ declared :: after) (hscope : declared.scope = around) :
    ∀ group ∈ before ++ [declared], group.scope ≠ around ++ [declared.name] := by
  intro group hmem heq
  rcases List.mem_append.mp hmem with hmem | hmem
  · obtain ⟨first, rest, rfl⟩ := List.append_of_mem hmem
    rw [List.append_assoc, List.cons_append] at hgroups
    have hknown : declared.name ∈ first.map (·.name) :=
      Schema.scope_subset_of_boundGroups hgroups (heq ▸ List.mem_append_right _ (List.mem_singleton_self _))
    have hdistinct := (nodup_of_registers ((Schema.compose_eq_ok_iff schema).mp ⟨composed, hcompose⟩).2).1
    rw [hgroups, List.map_append, List.nodup_append] at hdistinct
    exact hdistinct.2.2 _ hknown _ (by simp) rfl
  · obtain rfl := List.mem_singleton.mp hmem
    simpa using congrArg List.length (hscope.symm.trans heq)

/-- **Scopes are declared apart from each other.** -/
theorem Scope.Of.exists_declared (hformed : Schema.WellFormed schema) (hnests : schema.NestsGroups)
    (h : scope.Of composed data) : ∃ names before after, scope.Declared schema names before after := by
  induction h with
  | document =>
    rw [Schema.schema_of_compose hcompose]
    exact ⟨[], [], [], hformed, (Schema.fieldsHold_iff [] [] schema).mpr hnests,
      (List.append_nil _).symm, nofun⟩
  | item _ hitem ih =>
    obtain ⟨names, before, after, hdeclared⟩ := ih
    have haround := hitem.around_eq
    cases hitem with
    | @of_meets visit frame below item hmeets hgroup hshape hitem =>
      rename_i scope group i _
      obtain ⟨innerNames, earlier, declared, later, hbelow, rfl, hscope, hformed, hnests⟩ :=
        hmeets.exists_groupsBelow scope.around hdeclared.formed hdeclared.nests hgroup hshape
      have hgroups : schema.boundGroups = (before ++ earlier) ++ declared ::
          (groupsBelow innerNames (scope.around ++ [declared.name]) below ++ (later ++ after)) := by
        rw [hdeclared.groups, hbelow]
        simp only [List.append_assoc, List.cons_append]
      refine ⟨innerNames, (before ++ earlier) ++ [declared], later ++ after, hformed, hnests, ?_, ?_⟩
      · rw [hgroups, haround, List.append_assoc (before ++ earlier), List.singleton_append]
      · rw [haround]
        exact scope_ne_of_before hcompose hgroups hscope

/-- **A group follows one that is met before it in the same scope.** -/
theorem Scope.Declared.successive {before after : List Group} (h : scope.Declared schema names before after) :
    Successive composed.groups (itemCounts scope.data scope.fields) := by
  have hregisters := Schema.registers_of_compose hcompose
  rw [Schema.bare_groups_of_compose hcompose, h.groups] at hregisters
  have hmet := meetsWithin scope.fields names scope.around scope.data h.formed h.nests
  constructor
  · have hdistinct := (nodup_of_registers hregisters).1
    rw [List.map_append, List.map_append] at hdistinct
    rw [← hmet]
    exact (List.filter_sublist.map _).nodup hdistinct.of_append_right.of_append_left
  · intro earlier group n later hcounts sibling hsibling
    rw [hcounts, List.map_append, List.map_cons] at hmet
    obtain ⟨first, rest, hwithin, hfirst, hrest⟩ := List.map_eq_append_iff.mp hmet
    obtain ⟨declared, others, rfl, rfl, -⟩ := List.map_eq_cons_iff.mp hrest
    obtain ⟨start, rest, hall, hstart, hrest⟩ := List.filter_eq_append_iff.mp hwithin
    obtain ⟨between, rest, rfl, hbetween, hscope, -⟩ := List.filter_eq_cons_iff.mp hrest
    have hsplit : before ++ (groupsBelow names scope.around scope.fields ++ after) =
        (before ++ start ++ between) ++ declared :: (rest ++ after) := by
      rw [hall]
      simp
    have hfollows : declared.sibling = some sibling := by
      rw [← GroupIndex.sibling?_bare, Schema.bare_groups_of_compose hcompose, h.groups, hsplit,
        GroupIndex.sibling?, GroupIndex.find?_of_registers (hsplit ▸ hregisters)] at hsibling
      exact hsibling
    obtain ⟨other, hother, rfl, hsame⟩ :=
      GroupIndex.exists_sibling_of_registers (hsplit ▸ hregisters) hfollows
    -- of the groups before only those of the scope have the same groups around them
    have haround : other.scope = scope.around := hsame.trans (of_decide_eq_true hscope)
    rw [List.mem_append, List.mem_append] at hother
    rcases hother with (hother | hother) | hother
    · exact absurd haround (h.apart other hother)
    · rw [← hfirst, ← hstart]
      exact List.mem_map_of_mem (List.mem_filter.mpr ⟨hother, decide_eq_true haround⟩)
    · exact absurd (decide_eq_true haround) (hbetween other hother)

/-- A group that is met starts behind its chain, and has as many items as are counted. -/
theorem Scope.Declared.base_eq {before after : List Group} (h : scope.Declared schema names before after)
    (hmeets : scope.Meets composed.groups [] visit frame) (hgroup : visit.field.boundGroup? = some group)
    (hshape : visit.field.shape = some below) :
    base composed.groups group frame = ((composed.groups.siblingChain group).map scope.count).sum ∧
      scope.count group = (itemsOf visit.value).length := by
  have hsuccessive := h.successive hcompose
  obtain ⟨earlier, later, hcounts, rfl⟩ := hmeets.exists_itemCounts h.nests hgroup hshape
  refine ⟨base_foldl_advance (Schema.registers_of_compose hcompose) hsuccessive hcounts, ?_⟩
  exact countOf_of_mem hsuccessive.distinct (hcounts ▸ List.mem_append_right _ List.mem_cons_self)

/-- The items of a group are bound to the numbers that follow the items of its chain. -/
theorem Scope.Declared.binds_iff {before after : List Group} (h : scope.Declared schema names before after)
    (group : String) (i number : Nat) :
    scope.Binds composed.groups group i number ↔
      i < scope.count group ∧ number = ((composed.groups.siblingChain group).map scope.count).sum + i := by
  constructor
  · rintro ⟨inner, hitem, hbindings⟩
    cases hitem with
    | of_meets hmeets hgroup hshape hitem =>
      obtain ⟨hbase, hcount⟩ := h.base_eq hcompose hmeets hgroup hshape
      obtain ⟨hi, -⟩ := List.getElem?_eq_some_iff.mp hitem
      refine ⟨hcount ▸ hi, ?_⟩
      rw [← hbase]
      exact (congrArg Prod.snd (List.cons.inj hbindings).1).symm
  · rintro ⟨hi, rfl⟩
    have hlookup : ((itemCounts scope.data scope.fields).lookup group).isSome = true := by
      rw [Option.isSome_iff_ne_none]
      intro hnone
      rw [count, countOf, hnone] at hi
      cases hi
    obtain ⟨n, hn⟩ := Option.isSome_iff_exists.mp hlookup
    obtain ⟨earlier, later, hcounts, -⟩ := List.lookup_eq_some_iff.mp hn
    obtain ⟨visit, frame, below, hmeets, hgroup, hshape, hlength⟩ :=
      exists_meets_of_mem_itemCounts scope.fields []
        (hcounts ▸ List.mem_append_right earlier List.mem_cons_self)
    obtain ⟨hbase, hcount⟩ := h.base_eq hcompose hmeets hgroup hshape
    have hitem := List.getElem?_eq_getElem (hcount ▸ hi)
    exact ⟨_, .of_meets hmeets hgroup hshape hitem, by rw [hbase]⟩

/-- **Items are numbered behind those of the chain.** In every scope of a document an item of a
group is bound to its position behind all items that the groups of the sibling chain have in that
scope, and nothing else is bound. -/
theorem binds_iff_of_compose (hformed : Schema.WellFormed schema) (hnests : schema.NestsGroups)
    (hscope : scope.Of composed data) (group : String) (i number : Nat) :
    scope.Binds composed.groups group i number ↔
      i < scope.count group ∧ number = ((composed.groups.siblingChain group).map scope.count).sum + i := by
  obtain ⟨names, before, after, hdeclared⟩ := hscope.exists_declared hcompose hformed hnests
  exact hdeclared.binds_iff hcompose group i number

end Composed

/-- Discounts and, in an object, charges that follow them. -/
def priceFields : Schema := [
  ("discounts", (Field.ofArray [
    ("text", (Field.ofChoice ["a", "b"]).placedAt "/doc/line[lines]/change[discounts]")]).inGroup
      "discounts"),
  ("more", Field.ofObject [
    ("charges", ((Field.ofArray [
      ("text", (Field.ofChoice ["c"]).placedAt "/doc/line[lines]/change[charges]")]).inGroup "charges").after
        "discounts")])]

/-- Lines with discounts and charges. -/
def pricedLines : Schema := [("lines", (Field.ofArray priceFields).inGroup "lines")]

/-- A line with two discounts and a charge. -/
def pricedLine : Data := .obj [
  ("discounts", .arr [.obj [("text", .str "a")], .obj [("text", .str "b")]]),
  ("more", .obj [("charges", .arr [.obj [("text", .str "c")]])])]

/-- A line with a charge that is not in an array, and nothing else. -/
def chargedLine : Data := .obj [("more", .obj [("charges", .obj [("text", .str "c")])])]

theorem binds_iff_of_compose_pricedLines :
    ∃ composed, pricedLines.compose = .ok composed ∧ Schema.WellFormed pricedLines ∧ pricedLines.NestsGroups ∧
      ∃ first second : Scope, first.Of composed (.obj [("lines", .arr [pricedLine, chargedLine])]) ∧
        second.Of composed (.obj [("lines", .arr [pricedLine, chargedLine])]) ∧
          first.data = pricedLine ∧ second.data = chargedLine ∧
            (∀ i number, first.Binds composed.groups "charges" i number ↔ i < 1 ∧ number = 2 + i) ∧
              ∀ i number, second.Binds composed.groups "charges" i number ↔ i < 1 ∧ number = 0 + i := by
  have hformed : Schema.WellFormed pricedLines := by decide +kernel
  have hnests : pricedLines.NestsGroups := by decide +kernel
  have hok : pricedLines.compose.toOption.any (fun composed =>
      composed.groups.siblingChain "charges" = ["discounts"]) = true := by decide +kernel
  cases hcompose : pricedLines.compose with
  | error error =>
    rw [hcompose] at hok
    cases hok
  | ok composed =>
    rw [hcompose] at hok
    have hchain : composed.groups.siblingChain "charges" = ["discounts"] := of_decide_eq_true hok
    have hdocument : Scope.Of composed (.obj [("lines", .arr [pricedLine, chargedLine])])
        ⟨[], [], _, composed.schema⟩ := .document
    have hfields : composed.schema = [] ++ ("lines", (Field.ofArray priceFields).inGroup "lines") :: [] :=
      Schema.schema_of_compose hcompose
    have hlines : ∀ {i : Nat} {line : Data}, [pricedLine, chargedLine][i]? = some line → _ := fun hline =>
      hdocument.item (.of_meets (.own hfields) rfl rfl hline)
    have hfirst := hlines (show _[0]? = _ from rfl)
    have hsecond := hlines (show _[1]? = _ from rfl)
    refine ⟨composed, rfl, hformed, hnests, _, _, hfirst, hsecond, rfl, rfl, fun i number => ?_,
      fun i number => ?_⟩
    · rw [binds_iff_of_compose hcompose hformed hnests hfirst, hchain]
      rfl
    · rw [binds_iff_of_compose hcompose hformed hnests hsecond, hchain]
      rfl

end InvoiceXml.Assembly
