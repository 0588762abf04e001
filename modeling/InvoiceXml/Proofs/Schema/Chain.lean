import InvoiceXml.Proofs.Schema.Group
import Mathlib.Logic.Relation

/-!
# Chains of groups

Where groups are registered, a group follows one that comes before it with the same groups around it
(`sibling?`), and its sibling chain is that group with the chain of it (`siblingChain_eq`). So what
is true of groups that follow none, and of a group if it is of the one that it follows, is true of
all groups (`chain_induction`).

Two groups are linked when one follows the other. Several may follow the same group; where among the
groups that are linked to a group, however far away, no two do (`Forkless`), these are a line:

* **`chain_of_connected`**: then of two different ones, one is in the sibling chain of the other.

The groups around a group come before it, too (`scope_subset_of_boundGroups`).
-/

namespace InvoiceXml

namespace GroupIndex

/-- The group that a group follows. -/
def sibling? (name : String) (index : GroupIndex) : Option String := (index.find? name).bind Group.sibling

/-- Members play no part in what a group follows. -/
theorem sibling?_bare (name : String) (index : GroupIndex) :
    sibling? name ⟨index.bare⟩ = index.sibling? name := by
  rw [sibling?, find?, find?_bare, sibling?]
  cases index.find? name <;> rfl

theorem chainAmong_eq_nil {name : String} {groups : List Group} (hname : name ∉ groups.map (·.name)) :
    chainAmong name groups = [] := by
  induction groups with
  | nil => rfl
  | cons group earlier ih =>
    rw [List.map_cons, List.mem_cons, not_or] at hname
    rw [chainAmong, if_neg (Ne.symm hname.1), ih hname.2]

/-- Groups with other names have no part in a chain. -/
theorem chainAmong_append {name : String} {later : List Group} (hname : name ∉ later.map (·.name))
    (earlier : List Group) : chainAmong name (later ++ earlier) = chainAmong name earlier := by
  induction later with
  | nil => rfl
  | cons group rest ih =>
    rw [List.map_cons, List.mem_cons, not_or] at hname
    rw [List.cons_append, chainAmong, if_neg (Ne.symm hname.1), ih hname.2]

/-- Nor have groups that come after the last with the name. -/
theorem siblingChain_append {name : String} (before : List Group) {after : List Group}
    (hname : name ∉ after.map (·.name)) :
    siblingChain name ⟨before ++ after⟩ = siblingChain name ⟨before⟩ := by
  rw [siblingChain, siblingChain, List.reverse_append]
  exact chainAmong_append (by simpa using hname) before.reverse

/-- A registered group follows one before it with the same groups around it. -/
theorem exists_sibling_of_registers {before after : List Group} {group : Group}
    (h : registers [] (before ++ group :: after) = true) {sibling : String}
    (hsibling : group.sibling = some sibling) :
    ∃ other ∈ before, other.name = sibling ∧ other.scope = group.scope := by
  rw [registers_append, Bool.and_eq_true, List.nil_append] at h
  have hgroup := h.2
  rw [registers, Bool.and_eq_true, Bool.and_eq_true, hsibling] at hgroup
  obtain ⟨other, hother, hscope⟩ := (Option.any_eq_true _ _).mp hgroup.1.2
  exact ⟨other, List.mem_of_find?_eq_some hother, by simpa using List.find?_some hother,
    by simpa using hscope⟩

/-- A registered group is found under its name. -/
theorem find?_of_registers {before after : List Group} {group : Group}
    (h : registers [] (before ++ group :: after) = true) :
    find? group.name ⟨before ++ group :: after⟩ = some group := by
  have hdistinct := (nodup_of_registers h).1
  rw [List.map_append, List.map_cons, List.nodup_append] at hdistinct
  have hbefore : ∀ other ∈ before, other.name ≠ group.name := fun other hother =>
    hdistinct.2.2 _ (List.mem_map_of_mem hother) _ List.mem_cons_self
  rw [find?, List.find?_append, List.find?_eq_none.mpr (by simpa using hbefore)]
  simp

section Registered

variable {index : GroupIndex} (hregisters : registers [] index.bare = true)

include hregisters

/-- **What a chain is made of.** It is the group that is followed with the chain of this. -/
theorem siblingChain_eq (name : String) :
    index.siblingChain name = match index.sibling? name with
      | none => []
      | some sibling => sibling :: index.siblingChain sibling := by
  simp only [← sibling?_bare _ index, ← siblingChain_bare _ index]
  generalize index.bare = groups at hregisters
  cases hfind : find? name ⟨groups⟩ with
  | none =>
    have hname : name ∉ groups.reverse.map (·.name) := by
      simpa [find?, List.find?_eq_none] using hfind
    rw [sibling?, hfind, Option.bind_none, siblingChain, chainAmong_eq_nil hname]
  | some group =>
    obtain rfl : group.name = name := by simpa using List.find?_some hfind
    obtain ⟨before, after, rfl⟩ := List.append_of_mem (List.mem_of_find?_eq_some hfind)
    have hdistinct := (nodup_of_registers hregisters).1
    rw [List.map_append, List.map_cons, List.nodup_append, List.nodup_cons] at hdistinct
    obtain ⟨-, ⟨hafter, -⟩, hapart⟩ := hdistinct
    have hown : siblingChain group.name ⟨before ++ group :: after⟩ =
        chainAmong group.name (group :: before.reverse) := by
      have happend := siblingChain_append (before ++ [group]) hafter
      rw [List.append_assoc, List.singleton_append] at happend
      rw [happend, siblingChain, List.reverse_append, List.reverse_singleton, List.singleton_append]
    rw [sibling?, hfind, Option.bind_some, hown, chainAmong, if_pos rfl]
    cases hsibling : group.sibling with
    | none => rfl
    | some sibling =>
      obtain ⟨other, hother, rfl, -⟩ := exists_sibling_of_registers hregisters hsibling
      have hlater : other.name ∉ (group :: after).map (·.name) := fun h =>
        hapart _ (List.mem_map_of_mem hother) _ h rfl
      exact congrArg _ (siblingChain_append before hlater).symm

/-- Groups that follow none first, then those that follow them, and so on. -/
theorem chain_induction {motive : String → Prop}
    (start : ∀ name, index.sibling? name = none → motive name)
    (next : ∀ name sibling, index.sibling? name = some sibling → motive sibling → motive name)
    (name : String) :
    motive name := by
  induction hlength : (index.siblingChain name).length generalizing name with
  | zero =>
    cases hsibling : index.sibling? name with
    | none => exact start name hsibling
    | some sibling =>
      rw [siblingChain_eq hregisters, hsibling] at hlength
      cases hlength
  | succ length ih =>
    cases hsibling : index.sibling? name with
    | none => exact start name hsibling
    | some sibling =>
      rw [siblingChain_eq hregisters, hsibling] at hlength
      exact next name sibling hsibling (ih sibling (Nat.succ.inj hlength))

theorem siblingChain_of_sibling {name sibling : String} (h : index.sibling? name = some sibling) :
    index.siblingChain name = sibling :: index.siblingChain sibling := by
  rw [siblingChain_eq hregisters, h]

theorem siblingChain_of_none {name : String} (h : index.sibling? name = none) :
    index.siblingChain name = [] := by
  rw [siblingChain_eq hregisters, h]

/-- The chain of a group ends with the chain of each group in it. -/
theorem exists_siblingChain_eq_append {other : String} (name : String) (h : other ∈ index.siblingChain name) :
    ∃ nearer, index.siblingChain name = nearer ++ other :: index.siblingChain other := by
  induction name using chain_induction hregisters with
  | start name hnone =>
    rw [siblingChain_of_none hregisters hnone] at h
    cases h
  | next name sibling hsibling ih =>
    rw [siblingChain_of_sibling hregisters hsibling] at h ⊢
    rcases List.mem_cons.mp h with rfl | h
    · exact ⟨[], rfl⟩
    · obtain ⟨nearer, hnearer⟩ := ih h
      exact ⟨sibling :: nearer, congrArg _ hnearer⟩

/-- A group in the chain of a group is followed by another one in it or by the group itself. -/
theorem exists_follower {other : String} (name : String) (h : other ∈ index.siblingChain name) :
    ∃ follower, index.sibling? follower = some other ∧
      (follower = name ∨ follower ∈ index.siblingChain name) := by
  induction name using chain_induction hregisters with
  | start name hnone =>
    rw [siblingChain_of_none hregisters hnone] at h
    cases h
  | next name sibling hsibling ih =>
    rw [siblingChain_of_sibling hregisters hsibling] at h ⊢
    rcases List.mem_cons.mp h with rfl | h
    · exact ⟨name, hsibling, .inl rfl⟩
    · obtain ⟨follower, hfollower, hplace⟩ := ih h
      exact ⟨follower, hfollower, .inr (List.mem_cons.mpr hplace)⟩

end Registered

/-! ### Linked groups -/

/-- Whether one of two groups follows the other. -/
def Linked (index : GroupIndex) (name other : String) : Prop :=
  index.sibling? name = some other ∨ index.sibling? other = some name

/-- Whether two groups are linked, directly or through other groups. -/
def Connected (index : GroupIndex) : String → String → Prop := Relation.ReflTransGen index.Linked

/-- Whether no two of the groups that are connected to a group follow the same one. -/
def Forkless (index : GroupIndex) (name : String) : Prop :=
  ∀ first second sibling, index.Connected name first → index.Connected name second →
    index.sibling? first = some sibling → index.sibling? second = some sibling → first = second

/-- Each group of a chain is connected to the group that has the chain. -/
theorem connected_of_mem_siblingChain {index : GroupIndex} (hregisters : registers [] index.bare = true)
    {other : String} (name : String) (h : other ∈ index.siblingChain name) : index.Connected name other := by
  induction name using chain_induction hregisters with
  | start name hnone =>
    rw [siblingChain_of_none hregisters hnone] at h
    cases h
  | next name sibling hsibling ih =>
    rw [siblingChain_of_sibling hregisters hsibling] at h
    rcases List.mem_cons.mp h with rfl | h
    · exact .single (.inl hsibling)
    · exact .head (.inl hsibling) (ih h)

/-- **Without forks connected groups are a line.** One of two different ones is in the chain of the other. -/
theorem chain_of_connected {index : GroupIndex} (hregisters : registers [] index.bare = true)
    {name other : String} (hforkless : index.Forkless name) (h : index.Connected name other) :
    name = other ∨ other ∈ index.siblingChain name ∨ name ∈ index.siblingChain other := by
  induction h with
  | refl => exact .inl rfl
  | @tail middle other hmiddle hlink ih =>
    rcases hlink with hfollows | hfollowed
    · -- one step up: the chain of the middle starts with the other
      have hchain := siblingChain_of_sibling hregisters hfollows
      rcases ih with rfl | hbelow | habove
      · exact .inr (.inl (hchain ▸ List.mem_cons_self))
      · obtain ⟨nearer, hnearer⟩ := exists_siblingChain_eq_append hregisters name hbelow
        exact .inr (.inl (by simp [hnearer, hchain]))
      · rw [hchain] at habove
        exact (List.mem_cons.mp habove).imp_right .inr
    · -- one step down: no other group follows the middle
      have hchain := siblingChain_of_sibling hregisters hfollowed
      rcases ih with rfl | hbelow | habove
      · exact .inr (.inr (hchain ▸ List.mem_cons_self))
      · obtain ⟨follower, hfollower, hplace⟩ := exists_follower hregisters name hbelow
        have hreach : index.Connected name follower := by
          rcases hplace with rfl | hplace
          · exact .refl
          · exact connected_of_mem_siblingChain hregisters name hplace
        obtain rfl :=
          hforkless follower other middle hreach (hmiddle.tail (.inr hfollowed)) hfollower hfollowed
        exact hplace.imp Eq.symm .inl
      · exact .inr (.inr (hchain ▸ List.mem_cons_of_mem _ habove))

end GroupIndex

/-! ### Groups around groups -/

/-- Whether the groups around each group are known or come before it. -/
def ScopesKnown (known : List String) : List Group → Prop
  | [] => True
  | group :: rest => group.scope ⊆ known ∧ ScopesKnown (known ++ [group.name]) rest

theorem scopesKnown_append {known : List String} {first second : List Group} :
    ScopesKnown known (first ++ second) ↔
      ScopesKnown known first ∧ ScopesKnown (known ++ first.map (·.name)) second := by
  induction first generalizing known with
  | nil => simp [ScopesKnown]
  | cons group rest ih => simp [ScopesKnown, ih, and_assoc]

/-- Whether the groups around each entry are known or bound by an entry before it. -/
def ScopesBound (known : List String) : List Entry → Prop
  | [] => True
  | entry :: rest => entry.scope ⊆ known ∧ ScopesBound (known ++ entry.group?.toList.map (·.name)) rest

theorem scopesBound_append {known : List String} {first second : List Entry} :
    ScopesBound known (first ++ second) ↔
      ScopesBound known first ∧
        ScopesBound (known ++ (first.filterMap Entry.group?).map (·.name)) second := by
  induction first generalizing known with
  | nil => simp [ScopesBound]
  | cons entry rest ih =>
    rw [List.cons_append, ScopesBound, ScopesBound, ih, List.filterMap_cons, and_assoc]
    cases entry.group? <;> simp

/-- What is around an entry is bound by entries of the same list, if it is not known. -/
theorem ScopesBound.scope_subset {known : List String} {all : List Entry} (h : ScopesBound known all) :
    ∀ entry ∈ all, entry.scope ⊆ known ++ (all.filterMap Entry.group?).map (·.name) := by
  induction all generalizing known with
  | nil => simp
  | cons first rest ih =>
    obtain ⟨hfirst, hrest⟩ := h
    refine List.forall_mem_cons.mpr ⟨List.Subset.trans hfirst (List.subset_append_left _ _),
      fun entry hentry => ?_⟩
    have hscope := ih hrest entry hentry
    rw [List.filterMap_cons]
    cases hgroup : first.group? <;> simpa [hgroup] using hscope

namespace Schema

/-- The groups that fields bind at every depth, without their members. -/
def groupsBelow (names scope : List String) (fields : List (String × Field)) : List Group :=
  (entriesBelow names scope fields).filterMap Entry.group?

theorem groupsBelow_cons (names scope : List String) (name : String) (field : Field)
    (rest : List (String × Field)) :
    groupsBelow names scope ((name, field) :: rest) =
      (Entry.group? { names := names ++ [name], scope, field }).toList ++
        (groupsBelow (names ++ [name]) (scope ++ field.boundGroup?.toList) (field.shape.getD []) ++
          groupsBelow names scope rest) := by
  rw [groupsBelow, entriesBelow, List.filterMap_append, groups_entriesOfField, List.append_assoc]
  rfl

theorem groupsBelow_append (names scope : List String) (before after : List (String × Field)) :
    groupsBelow names scope (before ++ after) = groupsBelow names scope before ++
      groupsBelow names scope after := by
  induction before with
  | nil => rfl
  | cons head rest ih =>
    obtain ⟨name, field⟩ := head
    rw [List.cons_append, groupsBelow_cons, groupsBelow_cons, ih]
    simp only [List.append_assoc]

theorem names_groupsBelow (names scope : List String) (fields : List (String × Field)) :
    (groupsBelow names scope fields).map (·.name) = groupNames fields :=
  names_groups fields names scope

/-- The group that a field with a shape binds. -/
theorem group?_of_boundGroup? {names scope : List String} {field : Field} {fields : List (String × Field)}
    {group : String} (hgroup : field.boundGroup? = some group) (hshape : field.shape = some fields) :
    Entry.group? { names, scope, field } = some {
      name := group, fieldPath := Schema.dotted names, scope, sibling := field.sibling, members := [] } := by
  rw [Entry.group?, hshape, hgroup]

theorem group?_eq_none {names scope : List String} {field : Field} (hgroup : field.boundGroup? = none) :
    Entry.group? { names, scope, field } = none := by
  rw [Entry.group?, hgroup]
  cases field.shape <;> rfl

theorem scope_group? {entry : Entry} {group : Group} (h : entry.group? = some group) :
    group.scope = entry.scope := by
  rw [Entry.group?] at h
  split at h
  · obtain rfl := Option.some.inj h
    rfl
  · cases h

/-- The groups below fields have those around them that the fields have. -/
theorem scope_prefix_of_mem_groupsBelow : ∀ (fields : List (String × Field)) {names scope : List String}
    {group : Group}, group ∈ groupsBelow names scope fields → scope <+: group.scope := by
  refine Schema.induction_on_shapes fun fields ih => ?_
  intro names scope group h
  obtain ⟨entry, hentry, hgroup⟩ := List.mem_filterMap.mp h
  obtain ⟨name, field, hmem, hentry⟩ := mem_entriesBelow.mp hentry
  rcases mem_entriesOfField.mp hentry with rfl | ⟨below, hshape, hentry⟩
  · have hscope : group.scope = scope := scope_group? hgroup
    exact hscope ▸ List.prefix_rfl
  · exact (List.prefix_append _ _).trans
      (ih name field below hmem hshape (List.mem_filterMap.mpr ⟨entry, hentry, hgroup⟩))

/-- Fields are declared inside groups that are bound before them. -/
theorem scopesBound_entriesBelow : ∀ (fields : List (String × Field)) {names scope known : List String},
    scope ⊆ known → ScopesBound known (entriesBelow names scope fields) := by
  refine Schema.induction_on_shapes fun fields ih => ?_
  intro names scope known h
  induction fields generalizing known with
  | nil => exact trivial
  | cons head rest ihRest =>
    obtain ⟨name, field⟩ := head
    rw [entriesBelow, scopesBound_append, entriesOfField_eq_cons]
    refine ⟨⟨h, ?_⟩,
      ihRest (fun name field below hmem => ih name field below (List.mem_cons_of_mem _ hmem)) ?_⟩
    · cases hshape : field.shape with
      | none => exact trivial
      | some below =>
        rw [names_group? hshape]
        refine ih name field below List.mem_cons_self hshape ?_
        exact List.append_subset.mpr
          ⟨List.Subset.trans h (List.subset_append_left _ _), List.subset_append_right _ _⟩
    · exact List.Subset.trans h (List.subset_append_left _ _)

/-- So groups are bound inside groups that come before them. -/
theorem scopesKnown_of_scopesBound {known : List String} {all : List Entry} (h : ScopesBound known all) :
    ScopesKnown known (all.filterMap Entry.group?) := by
  induction all generalizing known with
  | nil => exact trivial
  | cons entry rest ih =>
    have hrest := ih h.2
    rw [List.filterMap_cons]
    cases hgroup : entry.group? with
    | none => simpa [hgroup] using hrest
    | some group =>
      rw [hgroup] at hrest
      exact ⟨scope_group? hgroup ▸ h.1, hrest⟩

/-- The groups around a group come before it. -/
theorem scope_subset_of_boundGroups {schema : Schema} {before after : List Group} {group : Group}
    (h : schema.boundGroups = before ++ group :: after) : group.scope ⊆ before.map (·.name) := by
  have hknown : ScopesKnown [] schema.boundGroups :=
    scopesKnown_of_scopesBound (scopesBound_entriesBelow schema (List.nil_subset _))
  rw [h, scopesKnown_append, List.nil_append] at hknown
  exact hknown.2.1

/-- The groups of a composed schema are registered. -/
theorem registers_of_compose {schema : Schema} {composed : ComposedSchema}
    (h : schema.compose = .ok composed) :
    registers [] composed.groups.bare = true := by
  rw [bare_groups_of_compose h]
  exact ((compose_eq_ok_iff schema).mp ⟨composed, h⟩).2

end Schema

end InvoiceXml
