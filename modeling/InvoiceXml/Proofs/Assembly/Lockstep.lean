import InvoiceXml.Assembly.Placement
import InvoiceXml.Proofs.Assembly.Silence
import InvoiceXml.Proofs.Schema.Group

/-!
# Runs in lockstep

A schema that extends another gives the same document of data that has no values for the added
fields, if these are silent and the others stay in their place.

Both runs of planning are followed step by step. They plan the same writes and fail alike
(`Planned.Matches`). Their frames agree on the groups of the smaller schema (`Frame.AgreesOn`); the
added groups are others, so they are never asked for.

* `planField_silent`: silent fields without values plan nothing;
* **`runsAlike`**: the fields of a schema are planned as those that it extends;
* **`assemble_merge`**: a layer that adds silent fields does not change the document of data without
  values for them.
-/

namespace InvoiceXml

open Schema (WellFormed FieldExtends FieldsExtend RelatedWithin AddedOutside fieldGroups groupNames)

/-! ### Runs that match -/

namespace Planned

/-- Whether two runs fail alike, or give values that are related. -/
def ResultsMatch {α β : Type} (related : α → β → Prop) :
    Except AssemblyError α → Except AssemblyError β → Prop
  | .ok a, .ok b => related a b
  | .error error, .error other => error = other
  | .ok _, .error _ | .error _, .ok _ => False

/-- Whether two runs plan the same writes, and fail alike or give values that are related. -/
structure Matches {α β : Type} (related : α → β → Prop) (run : Planned α) (other : Planned β) : Prop where
  writes : run.writes = other.writes
  result : ResultsMatch related run.result other.result

namespace Matches

variable {α β γ δ : Type} {related : α → β → Prop}

theorem pure {a : α} {b : β} (h : related a b) : Matches related (Pure.pure a) (Pure.pure b) := ⟨rfl, h⟩

/-- A run matches itself. -/
theorem refl (run : Planned α) : Matches Eq run run := by
  refine ⟨rfl, ?_⟩
  cases run.result <;> rfl

/-- Runs that match go on to match, if they do so after values that are related. -/
theorem bind {run : Planned α} {other : Planned β} {next : α → Planned γ} {after : β → Planned δ}
    {relatedNext : γ → δ → Prop} (h : Matches related run other)
    (hnext : ∀ a b, related a b → Matches relatedNext (next a) (after b)) :
    Matches relatedNext (run >>= next) (other >>= after) := by
  obtain ⟨writes, result⟩ := run
  obtain ⟨others, found⟩ := other
  obtain ⟨rfl, hresult⟩ := h
  cases result with
  | error error =>
    cases found with
    | error _ => exact ⟨rfl, hresult⟩
    | ok _ => cases hresult
  | ok a =>
    cases found with
    | error _ => cases hresult
    | ok b =>
      obtain ⟨hwrites, hlast⟩ := hnext a b hresult
      exact ⟨congrArg (writes ++ ·) hwrites, hlast⟩

/-- Two runs that match in everything are the same. -/
theorem eq {run other : Planned α} (h : Matches Eq run other) : run = other := by
  obtain ⟨writes, result⟩ := run
  obtain ⟨others, found⟩ := other
  obtain ⟨rfl, hresult⟩ := h
  cases result <;> cases found <;> cases hresult <;> rfl

end Matches

end Planned

/-! ### Frames that agree -/

/-- Whether two frames have the same ends for known groups. -/
def Frame.AgreesOn (known : List String) (frame other : Frame) : Prop :=
  ∀ group ∈ known, other.lookup group = frame.lookup group

namespace Frame.AgreesOn

variable {known : List String} {frame other : Frame}

theorem set (h : AgreesOn known frame other) (group : String) (finish : Nat) :
    AgreesOn known (frame.set group finish) (other.set group finish) := by
  intro name hname
  rw [Frame.set, Frame.set, List.lookup_cons, List.lookup_cons, h name hname]

/-- What is noted of a group that is not known is not seen. -/
theorem set_of_new (h : AgreesOn known frame other) {group : String} (hgroup : group ∉ known) (finish : Nat) :
    AgreesOn known frame (other.set group finish) := by
  intro name hname
  have hne : (name == group) = false := beq_eq_false_iff_ne.mpr fun heq => hgroup (heq ▸ hname)
  rw [Frame.set, List.lookup_cons, hne]
  exact h name hname

end Frame.AgreesOn

namespace Assembly

open Planned (Matches)

variable {known : List String} {frame other : Frame} {groups extended : GroupIndex}

/-- Whether known groups follow the same groups in two indices, all of them known. -/
def SameChains (known : List String) (groups extended : GroupIndex) : Prop :=
  ∀ group ∈ known, extended.siblingChain group = groups.siblingChain group ∧
    ∀ sibling ∈ groups.siblingChain group, sibling ∈ known

/-- Items of a known group are counted from the same number. -/
theorem base_of_sameChains (hchains : SameChains known groups extended)
    (hframe : Frame.AgreesOn known frame other) {group : String} (hgroup : group ∈ known) :
    base extended group other = base groups group frame := by
  obtain ⟨hchain, hknown⟩ := hchains group hgroup
  have hfind : ∀ chain : List String, (∀ sibling ∈ chain, sibling ∈ known) →
      chain.findSome? (fun sibling => other.lookup sibling) =
        chain.findSome? fun sibling => frame.lookup sibling := by
    intro chain
    induction chain with
    | nil => intro _; rfl
    | cons first rest ih =>
      intro h
      rw [List.findSome?_cons, List.findSome?_cons, hframe first (h first List.mem_cons_self),
        ih fun sibling hmem => h sibling (List.mem_cons_of_mem _ hmem)]
  rw [base, base, hchain, hfind _ hknown]

/-! ### Silent fields -/

mutual

/-- A silent field without a value plans nothing, and binds no known group. -/
theorem planField_silent : ∀ (field : Field), field.IsSilent → (∀ group ∈ fieldGroups field, group ∉ known) →
    ∀ (bindings : Bindings) (path : FieldPath) (frame other : Frame), Frame.AgreesOn known frame other →
      Matches (Frame.AgreesOn known) (pure frame) (planField groups bindings path none field other)
  | { type, required, shape, key, group, sibling, xpath, extras, transform, fallback }, hsilent, hnew,
      bindings, path, frame, other, hframe => by
    cases type with
    | scalar _ | choice _ =>
      obtain rfl : fallback = none := hsilent
      rw [planField]
      exact .pure hframe
    | object =>
      cases shape with
      | none =>
        rw [planField]
        exact .pure hframe
      | some fields =>
        obtain ⟨rfl, hfields⟩ := hsilent
        rw [planField]
        exact planFields_silent fields hfields hnew bindings path frame other hframe
    | objectArray =>
      cases shape with
      | none =>
        rw [planField]
        exact .pure hframe
      | some fields =>
        cases group with
        | none =>
          rw [planField]
          exact .pure hframe
        | some group =>
          rw [planField]
          exact .pure (hframe.set_of_new (hnew group List.mem_cons_self) _)

/-- Silent fields without values plan nothing, and bind no known group. -/
theorem planFields_silent : ∀ (fields : List (String × Field)), Schema.IsSilent fields →
    (∀ group ∈ groupNames fields, group ∉ known) →
    ∀ (bindings : Bindings) (path : FieldPath) (frame other : Frame), Frame.AgreesOn known frame other →
      Matches (Frame.AgreesOn known) (pure frame) (planFields groups bindings path (.obj []) fields other)
  | [], _, _, _, _, _, _, hframe => .pure hframe
  | (name, field) :: rest, hsilent, hnew, bindings, path, frame, other, hframe => by
    rw [planFields]
    have hfield := planField_silent field hsilent.1
      (fun group hmem => hnew group (List.mem_append_left _ hmem)) bindings (path.field name) frame other
      hframe
    exact hfield.bind fun before after hagrees => planFields_silent rest hsilent.2
      (fun group hmem => hnew group (List.mem_append_right _ hmem)) bindings path before after hagrees

end

/-! ### Fields of an extension -/

/-- Whether fields are planned as those that they extend, of data without values for what is added. -/
def RunsAlike (known : List String) (groups extended : GroupIndex) (fields : List (String × Field)) : Prop :=
  ∀ (base : Schema) (bindings : Bindings) (path : FieldPath) (data : Data) (frame other : Frame),
    FieldsExtend (RelatedWithin known Field.SamePlace) (AddedOutside known Field.IsSilent) base fields →
    WellFormed fields → Omits data base fields → Frame.AgreesOn known frame other →
      Matches (Frame.AgreesOn known) (planFields groups bindings path data base frame)
        (planFields extended bindings path data fields other)

theorem planShared_matches {plan after : FieldPath → Data → Frame → Planned Frame} {items : List Data}
    (h : ∀ item ∈ items, ∀ path frame other, Frame.AgreesOn known frame other →
      Matches (Frame.AgreesOn known) (plan path (itemData item) frame) (after path (itemData item) other))
    (path : FieldPath) (number : Nat) (hframe : Frame.AgreesOn known frame other) :
    Matches (Frame.AgreesOn known) (planShared plan path number items frame)
      (planShared after path number items other) := by
  induction items generalizing number frame other with
  | nil => exact .pure hframe
  | cons item rest ih =>
    rw [planShared, planShared]
    exact (h item List.mem_cons_self _ _ _ hframe).bind fun before next hagrees =>
      ih (fun item hmem => h item (List.mem_cons_of_mem _ hmem)) (number + 1) hagrees

theorem planBound_matches {plan after : FieldPath → Data → Nat → Planned Frame} {items : List Data}
    (h : ∀ item ∈ items, ∀ path bound,
      Matches (Frame.AgreesOn known) (plan path (itemData item) bound) (after path (itemData item) bound))
    (path : FieldPath) (first number : Nat) :
    Matches Eq (planBound plan path first number items) (planBound after path first number items) := by
  induction items generalizing number with
  | nil => exact .refl _
  | cons item rest ih =>
    rw [planBound, planBound]
    exact (h item List.mem_cons_self _ _).bind fun _ _ _ =>
      ih (fun item hmem => h item (List.mem_cons_of_mem _ hmem)) (number + 1)

/-- A field is planned as the one that it extends. -/
theorem planField_extends {field old : Field} (hchains : SameChains known groups extended)
    (hbelow : ∀ fields, field.shape = some fields → RunsAlike known groups extended fields)
    (hextends : FieldExtends (RelatedWithin known Field.SamePlace)
      (AddedOutside known Field.IsSilent) old field)
    (hformed : field.WellFormed) (bindings : Bindings) (path : FieldPath) {value : Option Data}
    (homits : OmitsBelow value old field) (hframe : Frame.AgreesOn known frame other) :
    Matches (Frame.AgreesOn known) (planField groups bindings path value old frame)
      (planField extended bindings path value field other) := by
  obtain ⟨⟨hplace, hknown⟩, hshapes⟩ := Schema.fieldExtends_iff.mp hextends
  obtain ⟨hfits, hinner⟩ := Field.wellFormed_iff.mp hformed
  cases field with
  | mk type required shape key group sibling xpath extras transform fallback =>
  cases old with
  | mk oldType oldRequired oldShape oldKey oldGroup oldSibling oldXpath oldExtras oldTransform oldFallback =>
  obtain ⟨hkind, hgroup, -, hxpath, hextras, htransform, hfallback⟩ := hplace
  obtain rfl : oldGroup = group := hgroup
  obtain rfl : oldXpath = xpath := hxpath
  obtain rfl : oldExtras = extras := hextras
  obtain rfl : oldTransform = transform := htransform
  obtain rfl : oldFallback = fallback := hfallback
  rcases Schema.shapeExtends_iff.mp hshapes with
    ⟨holdNone, hnone⟩ | ⟨below, fields, holdShape, hshape, hfields⟩
  · obtain rfl : shape = none := hnone
    obtain rfl : oldShape = none := holdNone
    cases type with
    | object | objectArray => cases hfits
    | scalar _ | choice _ =>
      cases oldType with
      | object | objectArray => cases hkind
      | scalar _ | choice _ =>
        rw [planField, planField]
        exact (Matches.refl _).bind fun _ _ _ => .pure hframe
  · obtain rfl : shape = some fields := hshape
    obtain rfl : oldShape = some below := holdShape
    have hrun := hbelow fields rfl
    have hinnerFormed := hinner fields rfl
    cases type with
    | scalar _ | choice _ => cases hfits
    | object =>
      cases oldType with
      | scalar _ | choice _ | objectArray => cases hkind
      | object =>
        rw [planField, planField]
        exact (Matches.refl _).bind fun _ _ _ => hrun below _ _ _ _ _ hfields hinnerFormed homits hframe
    | objectArray =>
      cases oldType with
      | scalar _ | choice _ | object => cases hkind
      | objectArray =>
        cases oldGroup with
        | none =>
          rw [planField, planField]
          refine planShared_matches (fun item hitem path frame other hframe => ?_) path 0 hframe
          exact hrun below _ _ _ _ _ hfields hinnerFormed (homits item hitem) hframe
        | some group =>
          have hgroup : group ∈ known := hknown group List.mem_cons_self
          rw [planField, planField, base_of_sameChains hchains hframe hgroup]
          have hitems : ∀ item ∈ itemsOf value, ∀ path bound, Matches (Frame.AgreesOn known)
              (planFields groups ((group, bound) :: bindings) path (itemData item) below [])
              (planFields extended ((group, bound) :: bindings) path (itemData item) fields []) :=
            fun item hitem _ _ => hrun below _ _ _ _ _ hfields hinnerFormed (homits item hitem) fun _ _ => rfl
          exact (planBound_matches hitems path _ 0).bind fun _ _ _ => .pure (hframe.set group _)

theorem omits_of_cons {data : Data} {name : String} {old : Field} {others : Schema}
    {rest : List (String × Field)} (hname : name ∉ rest.map (·.1))
    (h : Omits data ((name, old) :: others) rest) : Omits data others rest := by
  rw [omits_iff] at h ⊢
  intro later field hmem
  have hne : name ≠ later := fun heq => hname (heq ▸ List.mem_map_of_mem (f := (·.1)) hmem)
  have hfind := h later field hmem
  rwa [Schema.find?, if_neg hne] at hfind

/-- Fields are planned as those that they extend, if this is so below each of them. -/
theorem planFields_extends {fields : List (String × Field)} (hchains : SameChains known groups extended)
    (hbelow : ∀ name field below, (name, field) ∈ fields → field.shape = some below →
      RunsAlike known groups extended below) : RunsAlike known groups extended fields := by
  induction fields with
  | nil =>
    intro base bindings path data frame other hextends _ _ hframe
    obtain rfl : base = [] := hextends
    exact .pure hframe
  | cons head rest ih =>
    obtain ⟨name, field⟩ := head
    intro base bindings path data frame other hextends hformed homits hframe
    obtain ⟨hname, hfield, hrest⟩ := hformed
    obtain ⟨hfirst, hothersOmit⟩ := homits
    have ih := ih fun other found below hmem => hbelow other found below (List.mem_cons_of_mem _ hmem)
    rcases hextends with ⟨old, others, rfl, hold, hothers⟩ | ⟨hadded, hbase⟩
    · have hfind : Schema.find? name ((name, old) :: others) = some old := if_pos rfl
      rw [hfind] at hfirst
      rw [planFields, planFields]
      exact (planField_extends hchains (hbelow name field · List.mem_cons_self) hold hfield bindings _ hfirst
        hframe).bind fun before after hagrees => ih others bindings path data before after hothers hrest
          (omits_of_cons hname hothersOmit) hagrees
    · have hnew : Schema.find? name base = none := by
        refine Schema.find?_eq_none_iff.mpr fun hmem => hname ?_
        exact (Schema.names_sublist_of_fieldsExtend hbase).subset hmem
      rw [hnew] at hfirst
      rw [planFields, hfirst]
      -- the smaller schema does nothing here, which is planning nothing and going on
      show Matches _ (pure frame >>= fun frame => planFields groups bindings path data base frame) _
      exact (planField_silent field hadded.1 hadded.2 bindings _ frame other hframe).bind
        fun before after hagrees => ih base bindings path data before after hbase hrest hothersOmit hagrees

/-- **The two runs stay in lockstep**: fields are planned as those that they extend. -/
theorem runsAlike (hchains : SameChains known groups extended) (fields : List (String × Field)) :
    RunsAlike known groups extended fields :=
  Schema.induction_on_shapes (fun _ => planFields_extends hchains) fields

/-! ### Layers -/

variable {base layer : Schema} {composed merged : ComposedSchema}

/-- Groups of a schema that composes follow the same groups under a layer. -/
theorem sameChains_of_compose {schema : Schema} (hsublist : base.boundGroups.Sublist schema.boundGroups)
    (hcompose : base.compose = .ok composed) (hmerged : schema.compose = .ok merged) :
    SameChains (groupNames base) composed.groups merged.groups := by
  intro group hgroup
  have hnames : base.boundGroups.map (·.name) = groupNames base := Schema.names_groups base [] []
  have hbase := ((Schema.compose_eq_ok_iff base).mp ⟨composed, hcompose⟩).2
  have hschema := ((Schema.compose_eq_ok_iff schema).mp ⟨merged, hmerged⟩).2
  have hchain := siblingChain_of_sublist hsublist hbase hschema (hnames ▸ hgroup)
  rw [hnames, ← Schema.bare_groups_of_compose hcompose, ← Schema.bare_groups_of_compose hmerged,
    GroupIndex.siblingChain_bare, GroupIndex.siblingChain_bare] at hchain
  exact hchain

/-- Fields under a layer extend those of the schema within its groups, and what is added binds others. -/
theorem fieldsExtend_of_compose (hbase : WellFormed base) (hlayer : WellFormed layer)
    (hshared : ∀ old field, (some old, field) ∈ base.overlay layer → old.StaysUnder field)
    (hadded : ∀ field, (none, field) ∈ base.overlay layer → field.IsSilent)
    (hmerged : (base.merge layer).compose = .ok merged) :
    base.boundGroups.Sublist (base.merge layer).boundGroups ∧
      FieldsExtend (RelatedWithin (groupNames base) Field.SamePlace)
        (AddedOutside (groupNames base) Field.IsSilent) base (base.merge layer) := by
  have hgroup : ∀ old field : Field, old.SamePlace field → Schema.SameGroup old field :=
    fun _ _ => Field.SamePlace.sameGroup
  have hextends : FieldsExtend Field.SamePlace Field.IsSilent base (base.merge layer) := by
    refine Schema.fieldsExtend_merge Field.samePlace_refl layer hbase hlayer
      (fun old field hpair => ?_) hadded
    have hstays := hshared old field hpair
    exact ⟨FieldType.isObjectLike_of_isSameKind hstays.kind, hstays.samePlace⟩
  have hdistinct : (groupNames (base.merge layer)).Nodup := by
    rw [← Schema.names_groups (base.merge layer) [] []]
    exact (nodup_of_registers ((Schema.compose_eq_ok_iff (base.merge layer)).mp ⟨merged, hmerged⟩).2).1
  exact ⟨Schema.boundGroups_sublist hgroup hextends,
    Schema.fieldsExtend_within hgroup _ hextends hdistinct (fun _ h => h) fun _ _ h => h⟩

/-- **Layers that add silent fields are conservative.** A layer that leaves the fields of a schema
in their place and adds silent ones gives the same document, or the same failure, of data that omits
what it adds. -/
theorem assemble_merge (hbase : WellFormed base) (hlayer : WellFormed layer)
    (hshared : ∀ old field, (some old, field) ∈ base.overlay layer → old.StaysUnder field)
    (hadded : ∀ field, (none, field) ∈ base.overlay layer → field.IsSilent)
    (hcompose : base.compose = .ok composed) (hmerged : (base.merge layer).compose = .ok merged)
    (options : AssemblyOptions) (data : Data) (homits : Omits data base layer) :
    assemble merged options data = assemble composed options data := by
  obtain ⟨hsublist, hextends⟩ := fieldsExtend_of_compose hbase hlayer hshared hadded hmerged
  have hformed : WellFormed (base.merge layer) :=
    (Schema.wellFormed_merge layer hbase hlayer).mpr
      (Schema.not_leavesShape_of_isSameKind fun old field hpair => (hshared old field hpair).kind)
  have hrun := runsAlike (sameChains_of_compose hsublist hcompose hmerged) (base.merge layer) base
    [] [] data [] [] hextends hformed (omits_merge layer hbase hlayer data homits) fun _ _ => rfl
  have hplan : plan composed options.leading data = plan merged options.leading data := by
    rw [plan, plan, Schema.schema_of_compose hcompose, Schema.schema_of_compose hmerged]
    exact ((Matches.refl _).bind fun _ _ _ => hrun.bind fun _ _ _ => .pure rfl).eq
  rw [assemble, assemble, hplan]

/-- A title and numbered notes. -/
def notedSchema : Schema := [
  ("title", (Field.ofChoice ["draft"]).placedAt "/doc/title"),
  ("notes",
    (Field.ofArray [("text", (Field.ofChoice ["a", "b"]).placedAt "/doc/note[notes]/text")]).inGroup "notes")]

/-- Remarks, numbered after the notes, and the language of each note. -/
def remarkLayer : Schema := [
  ("notes", Field.ofArray [("language", (Field.ofChoice ["en"]).placedAt "/doc/note[notes]/@lang")]),
  ("remarks", ((Field.ofArray [
    ("text", (Field.ofChoice ["c"]).placedAt "/doc/note[remarks]/text")]).inGroup "remarks").after "notes")]

/-- A title and two notes, without remarks or languages. -/
def notedData : Data :=
  .obj [("title", .str "draft"), ("notes", .arr [.obj [("text", .str "a")], .obj [("text", .str "b")]])]

theorem assemble_merge_remarks :
    ∃ composed merged, notedSchema.compose = .ok composed ∧
      (notedSchema.merge remarkLayer).compose = .ok merged ∧
      assemble merged {} notedData = assemble composed {} notedData := by
  have hshared : ∀ old field, (some old, field) ∈ notedSchema.overlay remarkLayer → old.StaysUnder field := by
    intro old field h
    change (some old, field) ∈ [(some _, _), (none, _), (none, _)] at h
    simp only [List.mem_cons, Prod.mk.injEq, Option.some.injEq, reduceCtorEq, false_and, List.not_mem_nil,
      or_false] at h
    obtain ⟨rfl, rfl⟩ := h
    exact ⟨rfl, .inl rfl, .inl rfl, .inl rfl, .inl rfl, .inl rfl, .inl rfl⟩
  have hadded : ∀ field, (none, field) ∈ notedSchema.overlay remarkLayer → field.IsSilent := by
    intro field h
    change (none, field) ∈ [(some _, _), (none, _), (none, _)] at h
    simp only [List.mem_cons, Prod.mk.injEq, reduceCtorEq, false_and, false_or, true_and, List.not_mem_nil,
      or_false] at h
    rcases h with rfl | rfl
    · exact (rfl : (none : Option Data) = none)
    · exact trivial
  have homits : Omits notedData notedSchema remarkLayer := by
    refine ⟨fun item hitem => ?_, rfl, trivial⟩
    change item ∈ [Data.obj [("text", .str "a")], Data.obj [("text", .str "b")]] at hitem
    simp only [List.mem_cons, List.not_mem_nil, or_false] at hitem
    rcases hitem with rfl | rfl <;> exact ⟨rfl, trivial⟩
  have hok : (notedSchema.compose).toOption.isSome = true := by decide +kernel
  have hmergedOk : ((notedSchema.merge remarkLayer).compose).toOption.isSome = true := by decide +kernel
  cases hcompose : notedSchema.compose with
  | error error =>
    rw [hcompose] at hok
    cases hok
  | ok composed =>
    cases hmerged : (notedSchema.merge remarkLayer).compose with
    | error error =>
      rw [hmerged] at hmergedOk
      cases hmergedOk
    | ok merged =>
      exact ⟨composed, merged, rfl, rfl,
        assemble_merge (by decide +kernel) (by decide +kernel) hshared hadded hcompose hmerged {} notedData
          homits⟩

end Assembly

end InvoiceXml
