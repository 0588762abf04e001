import InvoiceXml.Proofs.Profile
import InvoiceXml.Proofs.Schema.Lookup
import InvoiceXml.Proofs.Schema.Names
import InvoiceXml.Proofs.Schema.Registration

/-!
# The index of business terms

The business terms of a schema are those of its fields at every depth, each with the dotted path of
the names on the way to the field. A field is declared before another one if the other lies inside
it or if their ways part at a name that the schema declares first (`Schema.DeclaredBefore`).

* `mem_terms_iff`: the terms are those of the fields that are nested anywhere in the schema;
* `pairwise_entriesBelow`: the entries of a schema stand in the order of declaration;
* **`Profile.terms_index_fields`**: the terms are an index of the fields that carry one. Finding a
  field by its path and listing its term under the path come to the same, no path is listed twice,
  and the paths stand in order;
* **`Profile.terms_sublist_of_extending`**: a profile keeps the terms of its parent, with their
  paths and in their order, where its schema leaves them where they are (`Schema.KeepsTerms`).

The terms are compared with the entries of the schema, and these with the nested fields. For the
terms under a layer it is enough that exchanging a field keeps the terms of the field, since placing
a new one keeps all others in order.
-/

namespace InvoiceXml

/-- The business term of the field of an entry, with its path. -/
def Entry.term? (entry : Entry) : Option (String × String) :=
  entry.field.key.map fun term => (term, Schema.dotted entry.names)

namespace Schema

/-! ### Terms entry by entry -/

/-- The terms of a field are its own and those of its shape. -/
theorem fieldTerms_eq_append (path : String) (field : Field) :
    fieldTerms path field = (field.key.map fun term => (term, path)).toList ++
      termsBelow path (field.shape.getD []) := by
  cases field with
  | mk type required shape key group sibling xpath extras transform fallback =>
    cases shape <;> simp [fieldTerms, termsBelow]

mutual

theorem fieldTerms_eq : ∀ (field : Field) (names scope : List String),
    fieldTerms (dotted names) field = (entriesOfField names scope field).filterMap Entry.term?
  | { type, required, shape, key, group, sibling, xpath, extras, transform, fallback }, names, scope => by
    rw [fieldTerms_eq_append, entriesOfField_eq_cons, List.filterMap_cons, Entry.term?]
    cases shape with
    | none => cases key <;> rfl
    | some fields =>
      rw [Option.getD_some, termsBelow_eq fields]
      cases key <;> rfl

/-- The terms of fields are those of their entries. -/
theorem termsBelow_eq : ∀ (fields : List (String × Field)) (names scope : List String),
    termsBelow (dotted names) fields = (entriesBelow names scope fields).filterMap Entry.term?
  | [], _, _ => rfl
  | (name, field) :: rest, names, scope => by
    rw [termsBelow, entriesBelow, List.filterMap_append, ← dotted_append, fieldTerms_eq field _ scope,
      termsBelow_eq rest names scope]

end

theorem terms_eq (schema : Schema) : schema.terms = schema.entries.filterMap Entry.term? :=
  termsBelow_eq schema [] []

/-! ### Ways of names -/

/-- Whether paths tell names apart: none comes twice, and each can be told from its neighbours in a
dotted path. -/
def DistinctSteps (names : List String) : Prop := names.Nodup ∧ ∀ name ∈ names, IsStep name

instance (names : List String) : Decidable (DistinctSteps names) :=
  inferInstanceAs (Decidable (names.Nodup ∧ ∀ name ∈ names, IsStep name))

section Nested

variable {schema : Schema} {around : List (String × Field)} {name : String} {field : Field}

/-- The names on the way to a field lead to it. -/
theorem Nested.along? (h : schema.Nested around name field) (hnames : NamesHold DistinctSteps schema) :
    schema.along? (around.map (·.1) ++ [name]) = some field := by
  induction h with
  | here hmem => exact find?_eq_some_of_mem hnames.1.1 hmem
  | inside hmem hshape _ ih =>
    exact along?_cons_of_shape (find?_eq_some_of_mem hnames.1.1 hmem) hshape (ih (hnames.of_mem hmem hshape))

theorem Nested.isStep (h : schema.Nested around name field) (hnames : NamesHold DistinctSteps schema) :
    ∀ step ∈ around.map (·.1) ++ [name], IsStep step := by
  induction h with
  | here hmem => simpa using hnames.1.2 _ (List.mem_map_of_mem (f := (·.1)) hmem)
  | inside hmem hshape _ ih =>
    exact List.forall_mem_cons.mpr
      ⟨hnames.1.2 _ (List.mem_map_of_mem (f := (·.1)) hmem), ih (hnames.of_mem hmem hshape)⟩

/-- A field is found at its path. -/
theorem Nested.lookup?_pathIn (h : schema.Nested around name field)
    (hnames : NamesHold DistinctSteps schema) :
    schema.lookup? (pathIn around name) = some field := by
  rw [lookup?, pathIn, pieces_dotted (by simp) (h.isStep hnames), h.along? hnames]

/-- Where names lead to a field, it is declared inside those on the way. -/
theorem exists_nested_of_along? {way : List String} (h : schema.along? way = some field) :
    ∃ around name, schema.Nested around name field ∧ way = around.map (·.1) ++ [name] := by
  induction way generalizing schema with
  | nil => cases h
  | cons name way ih =>
    cases way with
    | nil => exact ⟨[], name, .here (mem_of_find?_eq_some h), rfl⟩
    | cons next way =>
      rw [Schema.along?, Option.bind_eq_some_iff] at h
      · obtain ⟨below, hbelow, h⟩ := h
        obtain ⟨outer, hfind, hshape⟩ := Option.bind_eq_some_iff.mp hbelow
        obtain ⟨around, inner, hnested, hway⟩ := ih h
        exact ⟨(name, outer) :: around, inner, .inside (mem_of_find?_eq_some hfind) hshape hnested,
          by simp [hway]⟩
      · exact List.cons_ne_nil next way

/-- A field that is found at a path is declared there. -/
theorem exists_nested_of_lookup? {path : String} (h : schema.lookup? path = some field)
    (hnames : NamesHold DistinctSteps schema) :
    ∃ around name, schema.Nested around name field ∧ path = pathIn around name := by
  obtain ⟨around, name, hnested, hpieces⟩ := exists_nested_of_along? h
  obtain ⟨first, rest, hway⟩ := List.exists_cons_of_ne_nil (l := around.map (·.1) ++ [name]) (by simp)
  have hfirst : first ≠ "" := (hnested.isStep hnames first (hway ▸ List.mem_cons_self)).1
  refine ⟨around, name, hnested, ?_⟩
  rw [pathIn, hway]
  exact (dotted_pieces (hpieces.trans hway) hfirst).symm

/-- The terms of a schema are those of the fields that are declared anywhere in it, with their paths. -/
theorem mem_terms_iff {term path : String} :
    (term, path) ∈ schema.terms ↔
      ∃ around name field, schema.Nested around name field ∧ field.key = some term ∧
        path = pathIn around name := by
  rw [terms_eq, List.mem_filterMap]
  constructor
  · rintro ⟨entry, hentry, hterm⟩
    obtain ⟨around, name, hnested, hnames, -⟩ := (mem_entriesBelow_iff_nested schema).mp hentry
    obtain ⟨key, hkey, heq⟩ := Option.map_eq_some_iff.mp hterm
    obtain ⟨rfl, rfl⟩ := Prod.mk.inj heq
    exact ⟨around, name, entry.field, hnested, hkey, congrArg dotted hnames⟩
  · rintro ⟨around, name, field, hnested, hkey, rfl⟩
    refine ⟨⟨around.map (·.1) ++ [name], groupsOf around, field⟩,
      (mem_entriesBelow_iff_nested schema).mpr ⟨around, name, hnested, rfl, rfl⟩, ?_⟩
    rw [Entry.term?, hkey]
    rfl

end Nested

/-! ### The order of declaration -/

/-- Whether a schema declares the field at one way of names before that at another: depth first, in
the order of names, and a field before those of its shape. -/
inductive DeclaredBefore : Schema → List String → List String → Prop
  | parent {schema name next way} : DeclaredBefore schema [name] (name :: next :: way)
  | beside {schema first second way other} : [first, second].Sublist (names schema) →
      DeclaredBefore schema (first :: way) (second :: other)
  | inside {schema name field below way other} : (name, field) ∈ schema → field.shape = some below →
      DeclaredBefore below way other → DeclaredBefore schema (name :: way) (name :: other)

/-- Where no name comes twice, no field is declared before itself. -/
theorem DeclaredBefore.ne {schema : Schema} {way other : List String} (h : DeclaredBefore schema way other)
    (hnames : NamesHold DistinctSteps schema) : way ≠ other := by
  induction h with
  | parent => simp
  | beside hdeclared =>
    intro heq
    obtain ⟨rfl, -⟩ := List.cons.inj heq
    have htwice := hnames.1.1.sublist hdeclared
    simp at htwice
  | inside hmem hshape _ ih =>
    intro heq
    exact ih (hnames.of_mem hmem hshape) (List.cons.inj heq).2

theorem exists_way_of_mem_entriesOfField {names scope : List String} {field : Field} {entry : Entry}
    (h : entry ∈ entriesOfField names scope field) : ∃ way, entry.names = names ++ way := by
  rcases mem_entriesOfField.mp h with rfl | ⟨below, -, hentry⟩
  · exact ⟨[], (List.append_nil names).symm⟩
  · obtain ⟨around, name, -, hnames, -⟩ := (mem_entriesBelow_iff_nested below).mp hentry
    exact ⟨_, hnames⟩

theorem exists_way_of_mem_entriesBelow {names scope : List String} {fields : List (String × Field)}
    {entry : Entry} (h : entry ∈ entriesBelow names scope fields) :
    ∃ name way, name ∈ fields.map (·.1) ∧ entry.names = names ++ name :: way := by
  obtain ⟨name, field, hmem, hentry⟩ := mem_entriesBelow.mp h
  obtain ⟨way, hway⟩ := exists_way_of_mem_entriesOfField hentry
  exact ⟨name, way, List.mem_map_of_mem (f := (·.1)) hmem, by simp [hway]⟩

/-- Whether what two entries have behind the names around `fields` are ways of which the first is
declared before the second. -/
def InOrder (fields : List (String × Field)) (names : List String) (entry later : Entry) : Prop :=
  ∃ way other, entry.names = names ++ way ∧ later.names = names ++ other ∧ DeclaredBefore fields way other

/-- The entries of one of the fields stand in order if those of its shape do. -/
theorem pairwise_entriesOfField {names scope : List String} {name : String} {field : Field}
    {fields : List (String × Field)} (hmem : (name, field) ∈ fields)
    (h : ∀ below, field.shape = some below →
      ∀ names scope, (entriesBelow names scope below).Pairwise (InOrder below names)) :
    (entriesOfField (names ++ [name]) scope field).Pairwise (InOrder fields names) := by
  rw [entriesOfField_eq_cons, List.pairwise_cons]
  constructor
  · intro later hlater
    obtain ⟨next, way, -, hnames⟩ := exists_way_of_mem_entriesBelow hlater
    exact ⟨[name], name :: next :: way, rfl, by simp [hnames], .parent⟩
  · cases hshape : field.shape with
    | none => exact List.Pairwise.nil
    | some below =>
      refine (h below hshape _ _).imp fun {entry later} hdeclared => ?_
      obtain ⟨way, other, hway, hother, hbefore⟩ := hdeclared
      exact ⟨name :: way, name :: other, by simp [hway], by simp [hother], .inside hmem hshape hbefore⟩

/-- The entries of fields that follow each other among others stand in order if those of each shape do. -/
theorem pairwise_entriesBelow_of_sublist {names scope : List String} {part fields : List (String × Field)}
    (hsub : part.Sublist fields)
    (h : ∀ name field below, (name, field) ∈ fields → field.shape = some below →
      ∀ names scope, (entriesBelow names scope below).Pairwise (InOrder below names)) :
    (entriesBelow names scope part).Pairwise (InOrder fields names) := by
  induction part with
  | nil => exact List.Pairwise.nil
  | cons head rest ih =>
    obtain ⟨name, field⟩ := head
    have hmem : (name, field) ∈ fields := hsub.subset List.mem_cons_self
    rw [entriesBelow, List.pairwise_append]
    refine ⟨pairwise_entriesOfField hmem fun below => h name field below hmem,
      ih ((List.sublist_cons_self _ _).trans hsub), ?_⟩
    intro entry hentry later hlater
    obtain ⟨way, hway⟩ := exists_way_of_mem_entriesOfField hentry
    obtain ⟨next, other, hnext, hother⟩ := exists_way_of_mem_entriesBelow hlater
    have hdeclared : [name, next].Sublist (Schema.names fields) :=
      ((List.singleton_sublist.mpr hnext).cons_cons name).trans (hsub.map Prod.fst)
    exact ⟨name :: way, next :: other, by simp [hway], hother, .beside hdeclared⟩

/-- **Entries stand in the order of declaration.** -/
theorem pairwise_entriesBelow : ∀ (fields : List (String × Field)) (names scope : List String),
    (entriesBelow names scope fields).Pairwise (InOrder fields names) :=
  induction_on_shapes fun fields ih _ _ => pairwise_entriesBelow_of_sublist (List.Sublist.refl fields) ih

/-- The paths of the fields of a schema stand in the order of declaration, each cut into the way to
its field. -/
theorem pairwise_paths_entries {schema : Schema} (hnames : NamesHold DistinctSteps schema) :
    (schema.entries.map fun entry => dotted entry.names).Pairwise fun earlier later =>
      DeclaredBefore schema (Text.pieces '.' earlier) (Text.pieces '.' later) := by
  have hpieces : ∀ entry ∈ schema.entries, Text.pieces '.' (dotted entry.names) = entry.names := by
    intro entry hentry
    obtain ⟨around, name, hnested, hway, -⟩ := (mem_entriesBelow_iff_nested schema).mp hentry
    rw [hway, List.nil_append]
    exact pieces_dotted (by simp) (hnested.isStep hnames)
  rw [List.pairwise_map]
  refine List.Pairwise.imp_of_mem ?_ (pairwise_entriesBelow schema [] [])
  rintro entry later hentry hlater ⟨way, other, hway, hother, hbefore⟩
  rw [hpieces entry hentry, hpieces later hlater, hway, hother]
  exact hbefore

/-- No two fields have one path. -/
theorem nodup_paths_entries {schema : Schema} (hnames : NamesHold DistinctSteps schema) :
    (schema.entries.map fun entry => dotted entry.names).Nodup :=
  (pairwise_paths_entries hnames).imp fun hbefore heq => hbefore.ne hnames (congrArg (Text.pieces '.') heq)

/-- The paths that are listed are paths of fields, in order. -/
theorem paths_terms_sublist (schema : Schema) :
    (schema.terms.map (·.2)).Sublist (schema.entries.map fun entry => dotted entry.names) := by
  rw [terms_eq]
  induction schema.entries with
  | nil => exact List.Sublist.slnil
  | cons entry rest ih =>
    rw [List.filterMap_cons, List.map_cons, Entry.term?]
    cases entry.field.key with
    | none => exact ih.cons _
    | some key => exact ih.cons_cons _

/-- The terms of a schema stand in the order of declaration, each at the way that its path is cut into. -/
theorem pairwise_terms {schema : Schema} (hnames : NamesHold DistinctSteps schema) :
    schema.terms.Pairwise fun earlier later =>
      DeclaredBefore schema (Text.pieces '.' earlier.2) (Text.pieces '.' later.2) := by
  have hpaths := (pairwise_paths_entries hnames).sublist (paths_terms_sublist schema)
  rwa [List.pairwise_map] at hpaths

/-- No path is listed twice. -/
theorem nodup_paths_terms {schema : Schema} (hnames : NamesHold DistinctSteps schema) :
    (schema.terms.map (·.2)).Nodup :=
  (nodup_paths_entries hnames).sublist (paths_terms_sublist schema)

/-! ### Terms under a layer -/

/-- Whether a layer leaves the business terms of a schema where they are: at every depth it sets no
other term over one, and makes no scalar of a field that has others below it. -/
def KeepsTerms (base layer : Schema) : Prop :=
  ∀ old field, (some old, field) ∈ base.overlay layer →
    (∀ term ∈ old.key, ∀ other ∈ field.key, other = term) ∧
      (old.shape.getD [] ≠ [] → field.type.isObjectLike = true)

instance (base layer : Schema) : Decidable (KeepsTerms base layer) :=
  decidable_of_iff (∀ pair ∈ base.overlay layer, ∀ old ∈ pair.1,
      (∀ term ∈ old.key, ∀ other ∈ pair.2.key, other = term) ∧
        (old.shape.getD [] ≠ [] → pair.2.type.isObjectLike = true))
    ⟨fun h old field hpair => h _ hpair old rfl, fun h pair hpair old hold => h old pair.2 (by
      obtain ⟨base, field⟩ := pair
      obtain rfl : base = some old := hold
      exact hpair)⟩

theorem termsBelow_eq_flatMap (parent : String) (fields : List (String × Field)) :
    termsBelow parent fields = fields.flatMap fun entry => fieldTerms (below parent entry.1) entry.2 := by
  induction fields with
  | nil => rfl
  | cons head rest ih =>
    obtain ⟨name, field⟩ := head
    rw [termsBelow, List.flatMap_cons, ih]

/-- The terms of a field that is exchanged for one with more of them are kept, as are all others. -/
theorem termsBelow_sublist_insert {parent name : String} {old field : Field} {schema : Schema}
    (hold : schema.find? name = some old)
    (hterms : (fieldTerms (below parent name) old).Sublist (fieldTerms (below parent name) field)) :
    (termsBelow parent schema).Sublist (termsBelow parent (schema.insert name field)) := by
  induction schema with
  | nil => cases hold
  | cons head rest ih =>
    obtain ⟨other, found⟩ := head
    rw [find?] at hold
    rw [insert]
    split
    · rename_i hname
      subst hname
      rw [if_pos rfl] at hold
      obtain rfl := Option.some.inj hold
      exact hterms.append_right _
    · rename_i hname
      rw [if_neg hname] at hold
      exact (ih hold).append_left _

/-- The terms of fields are kept under a layer, if those of each field of both sides are. -/
theorem termsBelow_sublist_mergeFields {parent : String} {base : Schema} {layer : List (String × Field)}
    (hdistinct : (layer.map (·.1)).Nodup)
    (h : ∀ name field old, (name, field) ∈ layer → base.find? name = some old →
      (fieldTerms (below parent name) old).Sublist (fieldTerms (below parent name) (mergeField old field))) :
    (termsBelow parent base).Sublist (termsBelow parent (mergeFields base layer)) := by
  induction layer generalizing base with
  | nil => rw [mergeFields]
  | cons head rest ih =>
    obtain ⟨name, field⟩ := head
    obtain ⟨hnew, hrest⟩ := List.nodup_cons.mp hdistinct
    have hne : ∀ other found, (other, found) ∈ rest → other ≠ name := fun other found hmem heq =>
      hnew (heq ▸ List.mem_map_of_mem (f := (·.1)) hmem)
    rw [mergeFields]
    split
    · rename_i old hold
      refine (termsBelow_sublist_insert hold (h name field old List.mem_cons_self hold)).trans (ih hrest ?_)
      intro other found inner hmem hinner
      rw [find?_insert_of_ne (hne other found hmem)] at hinner
      exact h other found inner (List.mem_cons_of_mem _ hmem) hinner
    · have hplaced :
          (termsBelow parent base).Sublist (termsBelow parent (base.place name field (rest.map (·.1)))) := by
        rw [termsBelow_eq_flatMap, termsBelow_eq_flatMap]
        exact (sublist_place name field _ base).flatMap _
      refine hplaced.trans (ih hrest ?_)
      intro other found inner hmem hinner
      rw [find?_place_of_ne (hne other found hmem)] at hinner
      exact h other found inner (List.mem_cons_of_mem _ hmem) hinner

/-- A field keeps its terms under a layer that sets no other term and, if there is something below
the field, keeps it an object or an array and keeps the terms below. -/
theorem fieldTerms_sublist_mergeField {old field : Field} (hold : old.WellFormed) (hfield : field.WellFormed)
    (hkey : ∀ term ∈ old.key, ∀ other ∈ field.key, other = term)
    (hkind : old.shape.getD [] ≠ [] → field.type.isObjectLike = true)
    (hbelow : ∀ fields, field.shape = some fields → ∀ path,
      (termsBelow path (old.shape.getD [])).Sublist (termsBelow path (merge (old.shape.getD []) fields)))
    (path : String) : (fieldTerms path old).Sublist (fieldTerms path (mergeField old field)) := by
  rw [fieldTerms_eq_append, fieldTerms_eq_append]
  refine List.Sublist.append ?_ ?_
  · have hmerged : (mergeField old field).key = field.key.or old.key :=
      (mergeField_attributes old field).2.2.1
    cases hterm : old.key with
    | none => exact List.nil_sublist _
    | some term =>
      have hkept : (mergeField old field).key = some term := by
        rw [hmerged, hterm]
        cases hother : field.key with
        | none => rfl
        | some other => exact congrArg some (hkey term hterm other hother)
      rw [hkept]
  · by_cases hempty : old.shape.getD [] = []
    · rw [hempty]
      exact List.nil_sublist _
    · have hobject := hkind hempty
      obtain ⟨fields, hshape, -⟩ := Field.exists_shape_of_wellFormed hfield hobject
      rw [shape_mergeField (Field.wellFormed_iff.mp hold).1 (Field.wellFormed_iff.mp hfield).1,
        if_pos hobject, hshape]
      exact hbelow fields hshape path

/-- **Layers keep terms.** Under a layer that leaves them where they are, the terms of a schema keep
their paths and their order. -/
theorem termsBelow_sublist_merge : ∀ (layer : List (String × Field)) {base : Schema}, WellFormed layer →
    WellFormed base → KeepsTerms base layer → ∀ parent,
      (termsBelow parent base).Sublist (termsBelow parent (base.merge layer)) := by
  refine induction_on_shapes fun layer ih => ?_
  intro base hlayer hbase hkeeps parent
  refine termsBelow_sublist_mergeFields hlayer.distinct fun name field old hmem hold => ?_
  obtain ⟨hkey, hkind⟩ := hkeeps old field (shared_mem_overlay hmem hold)
  have holdFormed := hbase.of_find? hold
  have hfieldFormed := hlayer.field hmem
  refine fieldTerms_sublist_mergeField holdFormed hfieldFormed hkey hkind (fun fields hshape => ?_) _
  refine ih name field fields hmem hshape ((Field.wellFormed_iff.mp hfieldFormed).2 fields hshape)
    (WellFormed.shape_getD holdFormed) fun inner found hpair => ?_
  refine hkeeps inner found (below_mem_overlay hmem hold ?_)
  rwa [overlayBelow_of_shape hshape]

end Schema

/-- **The business terms are an index of the fields that carry one.** Where at every depth no name
comes twice, is empty or has a point, a term is listed with a path iff the path leads to a field
with this term; every field that carries one, wherever it is declared, is listed once, under the
path at which it is found; no path is listed twice; and the paths stand in the order of declaration,
depth first and a field before those of its shape. -/
theorem Profile.terms_index_fields {profile : Profile}
    (hnames : Schema.NamesHold Schema.DistinctSteps profile.mergedSchema) :
    (∀ term path, (term, path) ∈ profile.terms ↔
      ∃ field, profile.mergedSchema.lookup? path = some field ∧ field.key = some term) ∧
    (∀ around name field term, profile.mergedSchema.Nested around name field → field.key = some term →
      profile.mergedSchema.lookup? (Schema.pathIn around name) = some field ∧
        profile.terms.count (term, Schema.pathIn around name) = 1) ∧
    (profile.terms.map (·.2)).Nodup ∧
    profile.terms.Pairwise fun earlier later =>
      Schema.DeclaredBefore profile.mergedSchema (Text.pieces '.' earlier.2) (Text.pieces '.' later.2) := by
  have hdistinct := Schema.nodup_paths_terms hnames
  refine ⟨fun term path => ⟨?_, ?_⟩, fun around name field term hnested hkey => ⟨?_, ?_⟩, hdistinct,
    Schema.pairwise_terms hnames⟩
  · intro hmem
    obtain ⟨around, name, field, hnested, hkey, rfl⟩ := Schema.mem_terms_iff.mp hmem
    exact ⟨field, hnested.lookup?_pathIn hnames, hkey⟩
  · rintro ⟨field, hfound, hkey⟩
    obtain ⟨around, name, hnested, hpath⟩ := Schema.exists_nested_of_lookup? hfound hnames
    exact Schema.mem_terms_iff.mpr ⟨around, name, field, hnested, hkey, hpath⟩
  · exact hnested.lookup?_pathIn hnames
  · have hmem : (term, Schema.pathIn around name) ∈ profile.terms :=
      Schema.mem_terms_iff.mpr ⟨around, name, field, hnested, hkey, rfl⟩
    exact List.count_eq_one_of_mem hdistinct.of_map hmem

/-- Fields of one name at two depths, with a field without a term around one of them. -/
theorem Profile.terms_index_fields_contact :
    let named := fun term => (Field.ofChoice []).withKey term
    let profile := ofSchema "p" [
      ("seller",
        (Field.ofObject [
          ("name", named "BT-27"), ("contact", Field.ofObject [("name", named "BT-41")])]).withKey "BG-4"),
      ("buyer", Field.ofObject [("name", named "BT-44")])]
    Schema.NamesHold Schema.DistinctSteps profile.mergedSchema ∧
      profile.terms = [("BG-4", "seller"), ("BT-27", "seller.name"), ("BT-41", "seller.contact.name"),
        ("BT-44", "buyer.name")] ∧
      (∃ field, profile.mergedSchema.lookup? "seller.contact.name" = some field ∧ field.key = some "BT-41") ∧
      (profile.terms.map (·.2)).Nodup ∧
      profile.terms.Pairwise fun earlier later =>
        Schema.DeclaredBefore profile.mergedSchema (Text.pieces '.' earlier.2) (Text.pieces '.' later.2) := by
  intro named profile
  have hnames : Schema.NamesHold Schema.DistinctSteps profile.mergedSchema := by decide +kernel
  have hterms : profile.terms = [("BG-4", "seller"), ("BT-27", "seller.name"),
      ("BT-41", "seller.contact.name"), ("BT-44", "buyer.name")] := by decide +kernel
  obtain ⟨hlisted, -, hdistinct, horder⟩ := terms_index_fields hnames
  exact ⟨hnames, hterms, (hlisted "BT-41" "seller.contact.name").mp (by rw [hterms]; decide),
    hdistinct, horder⟩

/-- **A profile keeps the business terms of its parent.** If the schema of the profile leaves the
terms of the merged schema of the parent where they are, each of these is a term of the profile with
the same path, and in the same order. -/
theorem Profile.terms_sublist_of_extending (id : String) {schema : Schema} (before : List Setting)
    {after : List Setting} {parent : Profile} (hlast : ∀ other, Setting.extending other ∉ after)
    (hparent : Schema.WellFormed parent.mergedSchema) (hschema : Schema.WellFormed schema)
    (hkeeps : Schema.KeepsTerms parent.mergedSchema schema) :
    parent.terms.Sublist (build id schema (before ++ .extending parent :: after)).terms := by
  rw [terms, terms, mergedSchema_build_extending id schema before parent hlast]
  exact Schema.termsBelow_sublist_merge schema hschema hparent hkeeps ""

/-- A profile that makes an array of the notes of its parent, with new terms before, between and
behind those that it keeps. -/
theorem Profile.terms_sublist_of_extending_notes :
    let scalar := fun term => (Field.ofChoice []).withKey term
    let parent := ofSchema "parent" [("note", (Field.ofObject [("text", scalar "BT-22")]).withKey "BG-1"),
      ("currency", scalar "BT-5")]
    let schema : Schema := [("number", scalar "BT-1"),
      ("note", Field.ofArray [("subject", scalar "BT-21"), ("text", Field.ofChoice ["x"])]),
      ("due", scalar "BT-9")]
    let child := build "child" schema [.extending parent, .version "1.0"]
    Schema.WellFormed parent.mergedSchema ∧ Schema.WellFormed schema ∧
      Schema.KeepsTerms parent.mergedSchema schema ∧
      parent.terms = [("BG-1", "note"), ("BT-22", "note.text"), ("BT-5", "currency")] ∧
      child.terms = [("BT-1", "number"), ("BG-1", "note"), ("BT-21", "note.subject"), ("BT-22", "note.text"),
        ("BT-5", "currency"), ("BT-9", "due")] ∧
      parent.terms.Sublist child.terms := by
  intro scalar parent schema child
  have hall : Schema.WellFormed parent.mergedSchema ∧ Schema.WellFormed schema ∧
      Schema.KeepsTerms parent.mergedSchema schema := by decide +kernel
  obtain ⟨hparent, hschema, hkeeps⟩ := hall
  exact ⟨hparent, hschema, hkeeps, by decide +kernel, by decide +kernel,
    terms_sublist_of_extending "child" [] (by simp) hparent hschema hkeeps⟩

end InvoiceXml
