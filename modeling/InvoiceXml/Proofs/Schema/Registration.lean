import InvoiceXml.Proofs.Schema.Chain

/-!
# The index of groups

What the index of the groups of a schema guarantees (`GroupIndex.Indexes`), said without the entries
that it is built from: which fields lie around a field is read off the shapes alone
(`Schema.Nested`), and a sibling chain is what following siblings one by one leads to
(`GroupIndex.Leads`), a walk that has no bound of its own.

A registered group follows one that is registered before it in the same scope
(`exists_of_sibling?`). So each step of the walk goes back in the order of registration: it ends,
never returns, and stays in one scope.

* **`indexes_of_build`**: an index that is built has all of this.
-/

namespace InvoiceXml

namespace Schema

/-! ### Fields inside fields -/

/-- Whether a field is declared under a name in the shapes of the fields around it, of which the
outermost is one of the schema. -/
inductive Nested : Schema → (around : List (String × Field)) → String → Field → Prop
  | here {schema name field} : (name, field) ∈ schema → Nested schema [] name field
  | inside {schema outer box below around name field} : (outer, box) ∈ schema → box.shape = some below →
      Nested below around name field → Nested schema ((outer, box) :: around) name field

/-- The groups that fields bind, outermost first. -/
def groupsOf (around : List (String × Field)) : List String :=
  around.filterMap fun outer => outer.2.boundGroup?

/-- The path of a field in the shapes of the fields around it. -/
def pathIn (around : List (String × Field)) (name : String) : String := dotted (around.map (·.1) ++ [name])

/-- Whether a field inside others is an array of objects that declares a group for its items. -/
structure Declares (schema : Schema) (around : List (String × Field)) (name : String) (field : Field)
    (group : String) : Prop where
  nested : schema.Nested around name field
  shape : field.shape.isSome = true
  bound : field.boundGroup? = some group

theorem groupsOf_cons (outer : String) (box : Field) (around : List (String × Field)) :
    groupsOf ((outer, box) :: around) = box.boundGroup?.toList ++ groupsOf around := by
  rw [groupsOf, List.filterMap_cons, groupsOf]
  cases box.boundGroup? <;> rfl

/-- Entries are the nested fields. -/
theorem mem_entriesBelow_iff_nested :
    ∀ (fields : List (String × Field)) {names scope : List String} {entry : Entry},
      entry ∈ entriesBelow names scope fields ↔ ∃ around name, Nested fields around name entry.field ∧
        entry.names = names ++ (around.map (·.1) ++ [name]) ∧
        entry.scope = scope ++ groupsOf around := by
  refine Schema.induction_on_shapes fun fields ih => ?_
  intro names scope entry
  rw [mem_entriesBelow]
  constructor
  · rintro ⟨name, field, hmem, hentry⟩
    rcases mem_entriesOfField.mp hentry with rfl | ⟨below, hshape, hentry⟩
    · exact ⟨[], name, .here hmem, rfl, (List.append_nil scope).symm⟩
    · obtain ⟨around, inner, hnested, hnames, hscope⟩ := (ih name field below hmem hshape).mp hentry
      refine ⟨(name, field) :: around, inner, .inside hmem hshape hnested, by simp [hnames], ?_⟩
      rw [hscope, groupsOf_cons, List.append_assoc]
  · rintro ⟨around, name, hnested, hnames, hscope⟩
    obtain ⟨entryNames, entryScope, field⟩ := entry
    obtain rfl : entryNames = _ := hnames
    obtain rfl : entryScope = _ := hscope
    cases hnested with
    | here hmem => exact ⟨name, field, hmem, mem_entriesOfField.mpr (.inl (by simp [groupsOf]))⟩
    | @inside _ outer box below around name field hmem hshape hnested =>
      refine ⟨outer, box, hmem, mem_entriesOfField.mpr (.inr ⟨below, hshape, ?_⟩)⟩
      exact (ih outer box below hmem hshape).mpr
        ⟨around, name, hnested, by simp, by rw [groupsOf_cons, List.append_assoc]⟩

/-- The groups of a schema are those that its fields declare. -/
theorem mem_boundGroups_iff {schema : Schema} {group : Group} :
    group ∈ schema.boundGroups ↔
      ∃ around name field, schema.Declares around name field group.name ∧
        group.fieldPath = pathIn around name ∧ group.scope = groupsOf around ∧ group.sibling = field.sibling ∧
        group.members = [] := by
  rw [boundGroups, List.mem_filterMap]
  constructor
  · rintro ⟨entry, hentry, hgroup⟩
    obtain ⟨around, name, hnested, hnames, hscope⟩ := (mem_entriesBelow_iff_nested schema).mp hentry
    rw [List.nil_append] at hnames hscope
    rw [Entry.group?] at hgroup
    split at hgroup
    · rename_i fields bound hshape hbound
      obtain rfl := Option.some.inj hgroup
      exact ⟨around, name, entry.field, ⟨hnested, by rw [hshape]; rfl, hbound⟩,
        congrArg dotted hnames, hscope, rfl, rfl⟩
    · cases hgroup
  · rintro ⟨around, name, field, ⟨hnested, hshape, hbound⟩, hpath, hscope, hsibling, hmembers⟩
    obtain ⟨fields, hfields⟩ := Option.isSome_iff_exists.mp hshape
    refine ⟨⟨around.map (·.1) ++ [name], groupsOf around, field⟩,
      (mem_entriesBelow_iff_nested schema).mpr ⟨around, name, hnested, rfl, rfl⟩, ?_⟩
    rw [group?_of_boundGroup? hbound hfields]
    cases group
    simp_all [pathIn]

/-- A field that declares a group adds it to the groups of the schema. -/
theorem Declares.mem_boundGroups {schema : Schema} {around : List (String × Field)} {name group : String}
    {field : Field} (h : schema.Declares around name field group) :
    ⟨group, pathIn around name, groupsOf around, field.sibling, []⟩ ∈ schema.boundGroups :=
  mem_boundGroups_iff.mpr ⟨around, name, field, h, rfl, rfl, rfl, rfl⟩

end Schema

/-! ### What an index guarantees -/

namespace GroupIndex

/-- Following siblings from a group on until one follows none: the groups on the way. -/
inductive Leads (index : GroupIndex) : String → List String → Prop
  | stop {name} : index.sibling? name = none → Leads index name []
  | step {name sibling chain} : index.sibling? name = some sibling → Leads index sibling chain →
      Leads index name (sibling :: chain)

/-- How many groups are registered before a group. -/
def place (index : GroupIndex) (name : String) : Nat := (index.groups.map (·.name)).idxOf name

/-- What an index says of a schema. -/
structure Indexes (index : GroupIndex) (schema : Schema) : Prop where
  /-- No two groups have one name. -/
  distinct : (index.groups.map (·.name)).Nodup
  /-- Every array of objects with a group and a shape is registered. -/
  registered : ∀ around name field group, schema.Declares around name field group →
    ∃ entry, index.find? group = some entry
  /-- Every group is declared by such a field. -/
  declared : ∀ group ∈ index.groups, ∃ around name field, schema.Declares around name field group.name
  /-- A group knows the field that declares it, what this follows, and the groups of the fields around it. -/
  described : ∀ group ∈ index.groups, ∀ around name field, schema.Declares around name field group.name →
    group.fieldPath = Schema.pathIn around name ∧ group.sibling = field.sibling ∧
      group.scope = Schema.groupsOf around
  /-- The groups around a group are registered before it. -/
  inside : ∀ before group after, index.groups = before ++ group :: after → group.scope ⊆ before.map (·.name)
  /-- A sibling is registered before, in the same scope. -/
  follows : ∀ before group after, index.groups = before ++ group :: after → ∀ sibling,
    group.sibling = some sibling → ∃ other ∈ before, other.name = sibling ∧ other.scope = group.scope
  /-- Following siblings ends, with the sibling chain. -/
  leads : ∀ name chain, index.Leads name chain ↔ chain = index.siblingChain name
  /-- A sibling chain meets no group twice, nor the group whose chain it is. -/
  apart : ∀ name, (name :: index.siblingChain name).Nodup
  /-- A sibling chain goes back in the order of registration. -/
  backwards : ∀ name, (name :: index.siblingChain name).Pairwise fun nearer further =>
    index.place further < index.place nearer
  /-- A sibling chain consists of groups in the scope of the group whose chain it is. -/
  sameScope : ∀ name, ∀ other ∈ index.siblingChain name, ∃ group sibling, index.find? name = some group ∧
    index.find? other = some sibling ∧ sibling.scope = group.scope

/-! ### Members apart -/

/-- What is left of a group of an index without its members. -/
theorem mem_bare {index : GroupIndex} {group : Group} (h : group ∈ index.groups) :
    { group with members := [] } ∈ index.bare :=
  List.mem_map_of_mem (f := fun group : Group => { group with members := [] }) h

theorem names_bare (index : GroupIndex) : index.bare.map (·.name) = index.groups.map (·.name) := by
  rw [bare, List.map_map]
  rfl

/-- What comes before a group comes before it in the index without members. -/
theorem bare_eq_append {index : GroupIndex} {before after : List Group} {group : Group}
    (h : index.groups = before ++ group :: after) :
    index.bare = bare ⟨before⟩ ++ { group with members := [] } :: bare ⟨after⟩ := by
  rw [bare, h, List.map_append, List.map_cons]
  rfl

section Registered

variable {index : GroupIndex} (hregisters : registers [] index.bare = true)

include hregisters

theorem nodup_names : (index.groups.map (·.name)).Nodup :=
  names_bare index ▸ (nodup_of_registers hregisters).1

theorem find?_of_mem {group : Group} (h : group ∈ index.groups) : index.find? group.name = some group := by
  cases hfind : index.find? group.name with
  | none => exact absurd (by simp) (List.find?_eq_none.mp hfind group h)
  | some other =>
    have hname : other.name = group.name := by simpa using List.find?_some hfind
    rw [List.inj_on_of_nodup_map (nodup_names hregisters) (List.mem_of_find?_eq_some hfind) h hname]

/-- A registered group follows one that is registered before it in its scope. -/
theorem exists_before {before after : List Group} {group : Group}
    (h : index.groups = before ++ group :: after) {sibling : String}
    (hsibling : group.sibling = some sibling) :
    ∃ other ∈ before, other.name = sibling ∧ other.scope = group.scope := by
  rw [bare_eq_append h] at hregisters
  obtain ⟨other, hother, hname, hscope⟩ := exists_sibling_of_registers hregisters hsibling
  obtain ⟨found, hfound, rfl⟩ := List.mem_map.mp hother
  exact ⟨found, hfound, hname, hscope⟩

/-- **One step back.** Following a sibling leads to a group that is registered before, in the same scope. -/
theorem exists_of_sibling? {name sibling : String} (h : index.sibling? name = some sibling) :
    ∃ group other, index.find? name = some group ∧ index.find? sibling = some other ∧
      other.scope = group.scope ∧
      index.place sibling < index.place name := by
  obtain ⟨group, hgroup, hsibling⟩ := Option.bind_eq_some_iff.mp h
  obtain rfl : group.name = name := by simpa using List.find?_some hgroup
  obtain ⟨before, after, hsplit⟩ := List.append_of_mem (List.mem_of_find?_eq_some hgroup)
  obtain ⟨other, hother, rfl, hscope⟩ := exists_before hregisters hsplit hsibling
  have hmem : other ∈ index.groups := hsplit ▸ List.mem_append_left _ hother
  refine ⟨group, other, hgroup, find?_of_mem hregisters hmem, hscope, ?_⟩
  have hdistinct := nodup_names hregisters
  rw [hsplit, List.map_append, List.map_cons, List.nodup_append] at hdistinct
  have hbefore : other.name ∈ before.map (·.name) := List.mem_map_of_mem hother
  have hlater : group.name ∉ before.map (·.name) := fun h => hdistinct.2.2 _ h _ List.mem_cons_self rfl
  rw [place, place, hsplit, List.map_append, List.map_cons, List.idxOf_append_of_mem hbefore,
    List.idxOf_append_of_notMem hlater, List.idxOf_cons_self]
  exact Nat.lt_of_lt_of_le (List.idxOf_lt_length_iff.mpr hbefore) (Nat.le_add_right _ _)

/-- **The walk ends**, and it is the sibling chain that was walked. -/
theorem leads_iff (name : String) (chain : List String) :
    index.Leads name chain ↔ chain = index.siblingChain name := by
  constructor
  · intro h
    induction h with
    | stop hnone => rw [siblingChain_of_none hregisters hnone]
    | step hsibling _ ih => rw [siblingChain_of_sibling hregisters hsibling, ih]
  · rintro rfl
    induction name using chain_induction hregisters with
    | start name hnone =>
      rw [siblingChain_of_none hregisters hnone]
      exact .stop hnone
    | next name sibling hsibling ih =>
      rw [siblingChain_of_sibling hregisters hsibling]
      exact .step hsibling ih

theorem place_lt_of_mem_siblingChain {other : String} (name : String) (h : other ∈ index.siblingChain name) :
    index.place other < index.place name := by
  induction name using chain_induction hregisters with
  | start name hnone =>
    rw [siblingChain_of_none hregisters hnone] at h
    cases h
  | next name sibling hsibling ih =>
    obtain ⟨-, -, -, -, -, hplace⟩ := exists_of_sibling? hregisters hsibling
    rw [siblingChain_of_sibling hregisters hsibling] at h
    rcases List.mem_cons.mp h with rfl | h
    · exact hplace
    · exact Nat.lt_trans (ih h) hplace

/-- A walk goes back in the order of registration. -/
theorem pairwise_place (name : String) : (name :: index.siblingChain name).Pairwise fun nearer further =>
    index.place further < index.place nearer := by
  refine List.pairwise_cons.mpr ⟨fun other => place_lt_of_mem_siblingChain hregisters name, ?_⟩
  induction name using chain_induction hregisters with
  | start name hnone =>
    rw [siblingChain_of_none hregisters hnone]
    exact .nil
  | next name sibling hsibling ih =>
    rw [siblingChain_of_sibling hregisters hsibling]
    exact List.pairwise_cons.mpr ⟨fun other => place_lt_of_mem_siblingChain hregisters sibling, ih⟩

/-- So a walk never returns. -/
theorem nodup_cons_siblingChain (name : String) : (name :: index.siblingChain name).Nodup := by
  refine (pairwise_place hregisters name).imp ?_
  intro nearer further hplace heq
  exact Nat.lt_irrefl _ (heq ▸ hplace)

/-- A walk stays in one scope. -/
theorem scope_of_mem_siblingChain {other : String} (name : String) (h : other ∈ index.siblingChain name) :
    ∃ group sibling, index.find? name = some group ∧ index.find? other = some sibling ∧
      sibling.scope = group.scope := by
  induction name using chain_induction hregisters with
  | start name hnone =>
    rw [siblingChain_of_none hregisters hnone] at h
    cases h
  | next name next hsibling ih =>
    obtain ⟨group, nearest, hgroup, hnearest, hscope, -⟩ := exists_of_sibling? hregisters hsibling
    rw [siblingChain_of_sibling hregisters hsibling] at h
    rcases List.mem_cons.mp h with rfl | h
    · exact ⟨group, nearest, hgroup, hnearest, hscope⟩
    · obtain ⟨found, sibling, hfound, hother, hsame⟩ := ih h
      obtain rfl : nearest = found := Option.some.inj (hnearest.symm.trans hfound)
      exact ⟨group, sibling, hgroup, hother, hsame.trans hscope⟩

end Registered

section Bound

variable {index : GroupIndex} {schema : Schema} (hbare : index.bare = schema.boundGroups)

include hbare

theorem bare_mem_boundGroups {group : Group} (h : group ∈ index.groups) :
    { group with members := [] } ∈ schema.boundGroups :=
  hbare ▸ mem_bare h

/-- Every registered group is declared. -/
theorem exists_declares {group : Group} (h : group ∈ index.groups) :
    ∃ around name field, schema.Declares around name field group.name := by
  obtain ⟨around, name, field, hdeclares, -⟩ := Schema.mem_boundGroups_iff.mp (bare_mem_boundGroups hbare h)
  exact ⟨around, name, field, hdeclares⟩

/-- The groups around a group are registered before it. -/
theorem scope_subset_before {before after : List Group} {group : Group}
    (h : index.groups = before ++ group :: after) : group.scope ⊆ before.map (·.name) := by
  have hscope := Schema.scope_subset_of_boundGroups (hbare ▸ bare_eq_append h)
  rwa [names_bare] at hscope

variable (hregisters : registers [] index.bare = true)
  {around : List (String × Field)} {name : String} {field : Field}

include hregisters

/-- Every declared group is registered. -/
theorem exists_find?_of_declares {group : String} (h : schema.Declares around name field group) :
    ∃ entry, index.find? group = some entry := by
  have hmem := h.mem_boundGroups
  rw [← hbare] at hmem
  obtain ⟨entry, hentry, heq⟩ := List.mem_map.mp hmem
  obtain rfl : entry.name = group := (Group.mk.inj heq).1
  exact ⟨entry, find?_of_mem hregisters hentry⟩

/-- A group is what any declaration of it says: as no two groups have one name, no other made it. -/
theorem eq_of_declares {group : Group} (hgroup : group ∈ index.groups)
    (h : schema.Declares around name field group.name) :
    group.fieldPath = Schema.pathIn around name ∧ group.sibling = field.sibling ∧
      group.scope = Schema.groupsOf around := by
  have hdistinct : (schema.boundGroups.map (·.name)).Nodup := hbare ▸ (nodup_of_registers hregisters).1
  have hsame := List.inj_on_of_nodup_map hdistinct (bare_mem_boundGroups hbare hgroup) h.mem_boundGroups rfl
  obtain ⟨-, hpath, hscope, hsibling, -⟩ := Group.mk.inj hsame
  exact ⟨hpath, hsibling, hscope⟩

end Bound

/-- **What is built is an index.** -/
theorem indexes_of_build {schema : Schema} {index : GroupIndex} (h : build schema = .ok index) :
    index.Indexes schema := by
  have hcompose : schema.compose = .ok ⟨schema, index⟩ := bind_eq_ok.mpr ⟨index, h, rfl⟩
  have hbare : index.bare = schema.boundGroups := Schema.bare_groups_of_compose hcompose
  have hregisters : registers [] index.bare = true := Schema.registers_of_compose hcompose
  exact
    { distinct := nodup_names hregisters
      registered := fun around name field group => exists_find?_of_declares hbare hregisters
      declared := fun group => exists_declares hbare
      described := fun group hgroup around name field => eq_of_declares hbare hregisters hgroup
      inside := fun before group after => scope_subset_before hbare
      follows := fun before group after hsplit sibling => exists_before hregisters hsplit
      leads := leads_iff hregisters
      apart := nodup_cons_siblingChain hregisters
      backwards := pairwise_place hregisters
      sameScope := fun name other => scope_of_mem_siblingChain hregisters name }

/-- Lines with discounts and, in an object, charges that follow them and fees that follow these. -/
def feeLines : Schema := [("lines", (Field.ofArray [
  ("discounts", (Field.ofArray [
    ("text", (Field.ofChoice ["a"]).placedAt "/doc/line[lines]/change[discounts]")]).inGroup "discounts"),
  ("more", Field.ofObject [
    ("charges", ((Field.ofArray []).inGroup "charges").after "discounts"),
    ("fees", ((Field.ofArray []).inGroup "fees").after "charges")])]).inGroup "lines")]

theorem indexes_of_build_feeLines :
    ∃ index, build feeLines = .ok index ∧ index.Indexes feeLines ∧
      (index.find? "fees").map (fun group => (group.fieldPath, group.scope)) =
        some ("lines.more.fees", ["lines"]) ∧
        index.Leads "fees" ["charges", "discounts"] := by
  have hok : (build feeLines).toOption.any (fun index =>
      (index.find? "fees").map (fun group => (group.fieldPath, group.scope)) =
        some ("lines.more.fees", ["lines"]) ∧
        index.siblingChain "fees" = ["charges", "discounts"]) = true := by decide +kernel
  cases hbuild : build feeLines with
  | error error =>
    rw [hbuild] at hok
    cases hok
  | ok index =>
    rw [hbuild] at hok
    obtain ⟨hfees, hchain⟩ := of_decide_eq_true hok
    have hindexes := indexes_of_build hbuild
    exact ⟨index, rfl, hindexes, hfees, (hindexes.leads "fees" _).mpr hchain.symm⟩

end GroupIndex

end InvoiceXml
