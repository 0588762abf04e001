import InvoiceXml.Proofs.Assembly.WriteList

/-!
# The numbers in force

Composing a schema checks the markers of its paths against the groups around each field; assembling
replaces them by the numbers that are bound when a field is met. Here the two are brought together.

* **`of_entry_of_mem_visits`**: each visit is one of an entry, and the markers bound there are
  exactly the groups around the entry, innermost first;
* `resolve_of_placedIn`: so the paths of an entry that composes can be resolved at each of its
  visits;
* **`assemble_outcomes`**: a schema that composes is assembled, or the data is at fault: a value
  that is not a scalar, a second root, or no root at all.
-/

namespace InvoiceXml

/-- Whether a visit is one of an entry: it has its names and its field, and the groups around it are bound. -/
structure Visit.Of (entry : Entry) (visit : Visit) : Prop where
  names : visit.path.names = entry.names
  field : visit.field = entry.field
  scope : visit.bindings.map (·.1) = entry.scope.reverse

namespace Assembly

open Schema (entriesOfField entriesBelow mem_entriesOfField mem_entriesBelow self_mem_entriesOfField)

variable {groups : GroupIndex}

/-! ### Every visit has an entry -/

theorem Inside.names {bindings innerBindings : Bindings} {path innerPath : FieldPath} {value : Option Data}
    {field : Field} {frame innerFrame : Frame} {innerData : Data}
    (h : Inside groups bindings path value field frame innerBindings innerPath innerData innerFrame) :
    innerPath.names = path.names := by
  cases h with
  | object => rfl
  | shared | bound => rw [FieldPath.names_item]

/-- Inside a field the groups are bound that its entries have around them. -/
theorem Inside.scope {bindings innerBindings : Bindings} {path innerPath : FieldPath} {value : Option Data}
    {field : Field} {frame innerFrame : Frame} {innerData : Data} {scope : List String}
    (h : Inside groups bindings path value field frame innerBindings innerPath innerData innerFrame)
    (hscope : bindings.map (·.1) = scope.reverse) :
    innerBindings.map (·.1) = (scope ++ field.boundGroup?.toList).reverse := by
  cases h with
  | object htype => simp [Field.boundGroup?, htype, hscope]
  | shared htype hgroup => simp [Field.boundGroup?, htype, hgroup, hscope]
  | bound htype hgroup => simp [Field.boundGroup?, htype, hgroup, hscope]

theorem exists_entry_of_mem_visitsOfFields : ∀ (fields : List (String × Field)) {bindings : Bindings}
    {path : FieldPath} {names scope : List String} {data : Data} {frame : Frame} {visit : Visit},
    path.names = names → bindings.map (·.1) = scope.reverse →
      visit ∈ visitsOfFields groups bindings path data fields frame →
        ∃ entry ∈ entriesBelow names scope fields, visit.Of entry := by
  refine Schema.induction_on_shapes fun fields ih => ?_
  intro bindings path names scope data frame visit hnames hscope h
  obtain ⟨before, name, field, after, rfl, hvisit⟩ := mem_visitsOfFields.mp h
  have hmem : (name, field) ∈ before ++ (name, field) :: after := by simp
  have hname : (path.field name).names = names ++ [name] := by rw [FieldPath.names_field, hnames]
  have hentry : ∃ entry ∈ entriesOfField (names ++ [name]) scope field, visit.Of entry := by
    rcases mem_visitsOfField.mp hvisit with rfl | ⟨below, hshape, _, _, _, _, hinside, hinner⟩
    · exact ⟨_, self_mem_entriesOfField _ _ _, hname, rfl, hscope⟩
    · obtain ⟨entry, hentry, hof⟩ := ih name field below hmem hshape (hinside.names.trans hname)
        (hinside.scope hscope) hinner
      exact ⟨entry, mem_entriesOfField.mpr (.inr ⟨below, hshape, hentry⟩), hof⟩
  obtain ⟨entry, hentry, hof⟩ := hentry
  exact ⟨entry, mem_entriesBelow.mpr ⟨name, field, hmem, hentry⟩, hof⟩

theorem exists_entry_of_mem_visitsOfField {bindings : Bindings} {path : FieldPath}
    {names scope : List String} {value : Option Data} {field : Field} {frame : Frame}
    {visit : Visit} (hnames : path.names = names) (hscope : bindings.map (·.1) = scope.reverse)
    (h : visit ∈ visitsOfField groups bindings path value field frame) :
    ∃ entry ∈ entriesOfField names scope field, visit.Of entry := by
  rcases mem_visitsOfField.mp h with rfl | ⟨below, hshape, _, _, _, _, hinside, hinner⟩
  · exact ⟨_, self_mem_entriesOfField _ _ _, hnames, rfl, hscope⟩
  · obtain ⟨entry, hentry, hof⟩ := exists_entry_of_mem_visitsOfFields below (hinside.names.trans hnames)
      (hinside.scope hscope) hinner
    exact ⟨entry, mem_entriesOfField.mpr (.inr ⟨below, hshape, hentry⟩), hof⟩

/-- **Static and dynamic scopes agree.** Every visit of a document is one of an entry of the schema. -/
theorem of_entry_of_mem_visits {composed : ComposedSchema} {data : Data} {visit : Visit}
    (h : visit ∈ visits composed data) : ∃ entry ∈ composed.schema.entries, visit.Of entry :=
  exists_entry_of_mem_visitsOfFields composed.schema rfl rfl h

end Assembly

/-! ### Paths whose markers are bound -/

/-- The name and number of a step where its marker is bound. -/
def Step.numbered (bindings : Bindings) (step : Step) : String × Nat :=
  (step.name, match step.selector with
    | none => 0
    | some (.index number) => number
    | some (.group group) => (bindings.lookup group).getD 0)

theorem Path.resolveStep_eq_ok {bindings : Bindings} {xpath : String} {step : Step} {found : String × Nat}
    (h : resolveStep bindings xpath step = .ok found) : found = step.numbered bindings := by
  obtain ⟨name, selector⟩ := step
  cases selector with
  | none => exact (Except.ok.inj h).symm
  | some selector =>
    cases selector with
    | index number => exact (Except.ok.inj h).symm
    | group group =>
      cases hlookup : bindings.lookup group with
      | none =>
        simp only [resolveStep, hlookup] at h
        cases h
      | some number =>
        simp only [resolveStep, hlookup] at h
        simp only [Step.numbered, hlookup]
        exact (Except.ok.inj h).symm

theorem Path.resolveSteps_eq_ok {bindings : Bindings} {xpath : String} {steps : List Step}
    {way : List (String × Nat)} (h : steps.mapM (resolveStep bindings xpath) = .ok way) :
    way = steps.map (Step.numbered bindings) := by
  induction steps generalizing way with
  | nil => exact (Except.ok.inj h).symm
  | cons step rest ih =>
    rw [List.mapM_cons] at h
    obtain ⟨first, hfirst, h⟩ := bind_eq_ok.mp h
    obtain ⟨others, hothers, h⟩ := bind_eq_ok.mp h
    rw [List.map_cons, ← resolveStep_eq_ok hfirst, ← ih hothers]
    exact (Except.ok.inj h).symm

theorem Path.exists_resolveSteps {bindings : Bindings} {steps : List Step} (xpath : String)
    (h : ∀ marker ∈ steps.filterMap Step.marker?, (bindings.lookup marker).isSome = true) :
    ∃ way, steps.mapM (resolveStep bindings xpath) = .ok way := by
  induction steps with
  | nil => exact ⟨[], rfl⟩
  | cons step rest ih =>
    have hrest : ∀ marker ∈ rest.filterMap Step.marker?, (bindings.lookup marker).isSome = true := by
      intro marker hmarker
      apply h
      rw [List.filterMap_cons]
      split
      · exact hmarker
      · exact List.mem_cons_of_mem _ hmarker
    obtain ⟨others, hothers⟩ := ih hrest
    have hstep : ∃ first, resolveStep bindings xpath step = .ok first := by
      rw [resolveStep]
      split
      · exact ⟨_, rfl⟩
      · exact ⟨_, rfl⟩
      · rename_i group hselector
        have hmarker : step.marker? = some group := by rw [Step.marker?, hselector]
        have hbound := h group (by rw [List.filterMap_cons, hmarker]; exact List.mem_cons_self)
        obtain ⟨number, hnumber⟩ := Option.isSome_iff_exists.mp hbound
        rw [hnumber]
        exact ⟨_, rfl⟩
    obtain ⟨first, hfirst⟩ := hstep
    exact ⟨first :: others, by simp [List.mapM_cons, hfirst, hothers, bind, Except.bind, pure, Except.pure]⟩

/-- The number of a marker is bound where the groups in scope are. -/
theorem isSome_lookup_of_mem {bindings : Bindings} {scope : List String}
    (hscope : bindings.map (·.1) = scope.reverse) {marker : String} (hmarker : marker ∈ scope) :
    (bindings.lookup marker).isSome = true := by
  have hmem : marker ∈ bindings.map (·.1) := by rw [hscope]; exact List.mem_reverse.mpr hmarker
  clear hscope
  induction bindings with
  | nil => cases hmem
  | cons first rest ih =>
    obtain ⟨name, number⟩ := first
    by_cases hname : marker = name
    · simp [hname]
    · have hbeq : (marker == name) = false := by simpa using hname
      rw [List.lookup_cons, hbeq]
      rcases List.mem_cons.mp hmem with h | h
      · exact absurd h hname
      · exact ih h

/-- Where the groups in scope are bound, a path in this scope can be resolved. -/
theorem Path.resolve_of_placedIn {bindings : Bindings} {scope : List String} {path : Path}
    (hplaced : path.PlacedIn scope) (hscope : bindings.map (·.1) = scope.reverse) :
    path.resolve bindings = .ok (path.steps.map (Step.numbered bindings)) := by
  obtain ⟨way, hway⟩ := exists_resolveSteps path.render fun marker hmarker =>
    isSome_lookup_of_mem hscope (hplaced.markers marker hmarker)
  rw [resolve, hplaced.absolute, ← resolveSteps_eq_ok hway]
  exact hway

namespace Assembly

/-! ### Writes of a visit -/

/-- A write goes where its path leads with the numbers that are bound. -/
theorem writeAt?_eq_some {bindings : Bindings} {path : Path} {content : Content} {write : Write}
    (h : writeAt? bindings path content = some write) :
    write.address = path.steps.map (Step.numbered bindings) ∧ write.content = content := by
  rw [writeAt?] at h
  split at h
  · rename_i rootName rootNumber way hresolve
    obtain rfl := Option.some.inj h
    rw [Path.resolve] at hresolve
    split at hresolve
    · cases hresolve
    · exact ⟨Path.resolveSteps_eq_ok hresolve, rfl⟩
  all_goals cases h

theorem isSome_writeAt? {bindings : Bindings} {scope : List String} {path : Path} (content : Content)
    (hplaced : path.PlacedIn scope) (hscope : bindings.map (·.1) = scope.reverse) :
    (writeAt? bindings path content).isSome = true := by
  rw [writeAt?, Path.resolve_of_placedIn hplaced hscope]
  cases hsteps : path.steps with
  | nil => exact absurd hsteps hplaced.steps
  | cons step rest => rfl

theorem mem_extraWrites? {bindings : Bindings} {owner : Option Path} {value : Data}
    {extras : List (String × ExtraValue)} {writes : List Write} {write : Write}
    (h : extraWrites? bindings owner value extras = some writes) (hmem : write ∈ writes) :
    ∃ extra ∈ extras, ∃ path text, GroupIndex.extraPath? owner extra.1 = some path ∧
      (∃ value, extra.2.render value = some text) ∧ writeAt? bindings path (textContent path text) =
        some write := by
  induction extras generalizing writes with
  | nil =>
    obtain rfl := Option.some.inj h
    cases hmem
  | cons extra rest ih =>
    obtain ⟨xpath, content⟩ := extra
    have hrest : ∀ others, extraWrites? bindings owner value rest = some others → write ∈ others →
        ∃ extra ∈ (xpath, content) :: rest, ∃ path text, GroupIndex.extraPath? owner extra.1 = some path ∧
          (∃ value, extra.2.render value = some text) ∧
            writeAt? bindings path (textContent path text) = some write := by
      intro others hothers hmem
      obtain ⟨extra, hextra, found⟩ := ih hothers hmem
      exact ⟨extra, List.mem_cons_of_mem _ hextra, found⟩
    rw [extraWrites?] at h
    cases hrender : content.render value with
    | none =>
      simp only [hrender, Option.bind_eq_bind, Option.bind_some, Option.bind_eq_some_iff,
        Option.some.injEq] at h
      obtain ⟨others, hothers, rfl⟩ := h
      exact hrest others hothers hmem
    | some text =>
      simp only [hrender, Option.bind_eq_bind, Option.bind_eq_some_iff, Option.map_eq_some_iff,
        Option.some.injEq] at h
      obtain ⟨path, hpath, _, ⟨found, hwrite, rfl⟩, others, hothers, rfl⟩ := h
      rcases List.mem_cons.mp hmem with rfl | hmem
      · exact ⟨(xpath, content), List.mem_cons_self, path, text, hpath, ⟨value, hrender⟩, hwrite⟩
      · exact hrest others hothers hmem

/-- A write of a field is at its own path or at that of an extra. -/
theorem mem_fieldWrites? {bindings : Bindings} {field : Field} {content : Path → Content}
    {value : Data} {writes : List Write} {write : Write}
    (h : fieldWrites? bindings field.xpath field.extraEntries content value = some writes)
    (hmem : write ∈ writes) :
    (∃ path, field.ownPath? = some path ∧ writeAt? bindings path (content path) = some write) ∨
      ∃ extra ∈ field.extraEntries, ∃ path text, GroupIndex.extraPath? field.ownPath? extra.1 = some path ∧
        (∃ value, extra.2.render value = some text) ∧
        writeAt? bindings path (textContent path text) = some write := by
  rw [Field.ownPath?]
  cases hxpath : field.xpath with
  | none =>
    rw [hxpath] at h
    exact .inr (mem_extraWrites? h hmem)
  | some xpath =>
    rw [hxpath] at h
    simp only [fieldWrites?, Option.bind_eq_bind, Option.bind_eq_some_iff, Option.some.injEq] at h
    obtain ⟨path, hread, own, hown, beside, hbeside, rfl⟩ := h
    rw [Option.bind_some, hread]
    rcases List.mem_cons.mp hmem with rfl | hmem
    · exact .inl ⟨path, rfl, hown⟩
    · exact .inr (mem_extraWrites? hbeside hmem)

/-- The text at the own path of a field is among its writes. -/
theorem exists_own_mem_fieldWrites? {bindings : Bindings} {field : Field} {content : Path → Content}
    {value : Data} {writes : List Write} {path : Path}
    (h : fieldWrites? bindings field.xpath field.extraEntries content value = some writes)
    (hpath : field.ownPath? = some path) :
    ∃ write ∈ writes, writeAt? bindings path (content path) = some write := by
  obtain ⟨xpath, hxpath, hread⟩ := Option.bind_eq_some_iff.mp hpath
  rw [hxpath] at h
  simp only [fieldWrites?, hread, Option.bind_eq_bind, Option.bind_some, Option.bind_eq_some_iff,
    Option.some.injEq] at h
  obtain ⟨own, hown, beside, -, rfl⟩ := h
  exact ⟨own, List.mem_cons_self, hown⟩

theorem isSome_extraWrites? {bindings : Bindings} {scope : List String} {owner : Option Path}
    {extras : List (String × ExtraValue)} (value : Data) (hscope : bindings.map (·.1) = scope.reverse)
    (hextras : ∀ extra ∈ extras, ∃ path, GroupIndex.extraPath? owner extra.1 = some path ∧
      path.PlacedIn scope) :
    (extraWrites? bindings owner value extras).isSome = true := by
  induction extras with
  | nil => rfl
  | cons extra rest ih =>
    obtain ⟨⟨path, hpath, hplaced⟩, hrest⟩ := List.forall_mem_cons.mp hextras
    obtain ⟨others, hothers⟩ := Option.isSome_iff_exists.mp (ih hrest)
    rw [extraWrites?, hothers]
    cases extra.2.render value with
    | none => rfl
    | some text =>
      obtain ⟨write, hwrite⟩ := Option.isSome_iff_exists.mp
        (isSome_writeAt? (textContent path text) hplaced hscope)
      simp [hpath, hwrite]

variable {entry : Entry} {visit : Visit}

theorem isSome_fieldWrites? (hcomposes : entry.Composes) (hof : visit.Of entry) (content : Path → Content)
    (value : Data) :
    (fieldWrites? visit.bindings visit.field.xpath visit.field.extraEntries content value).isSome = true := by
  have hextras := hcomposes.extras
  rw [← hof.field, Field.ownPath?] at hextras
  cases hxpath : visit.field.xpath with
  | none =>
    rw [hxpath, Option.bind_none] at hextras
    exact isSome_extraWrites? value hof.scope hextras
  | some xpath =>
    obtain ⟨path, hread, hplaced⟩ := hcomposes.own xpath (hof.field ▸ hxpath)
    rw [hxpath, Option.bind_some, hread] at hextras
    obtain ⟨own, hown⟩ := Option.isSome_iff_exists.mp (isSome_writeAt? (content path) hplaced hof.scope)
    obtain ⟨beside, hbeside⟩ := Option.isSome_iff_exists.mp (isSome_extraWrites? value hof.scope hextras)
    have hbeside : extraWrites? visit.bindings (some path) value visit.field.extraEntries =
      some beside := hbeside
    simp [fieldWrites?, hread, Except.toOption, hown, hbeside]

/-- A visit of an entry that composes has its writes, if its value is a scalar where one is needed. -/
theorem isSome_writes? (hcomposes : entry.Composes) (hof : visit.Of entry)
    (hscalar : visit.field.type.isObjectLike = false → ∀ data,
      resolveValue visit.field.transform visit.field.fallback visit.value = some data →
        (scalarText data).isSome = true) : visit.writes?.isSome = true := by
  rw [Visit.writes?]
  cases htype : visit.field.type with
  | scalar _ | choice _ =>
    simp only
    cases hresolve : resolveValue visit.field.transform visit.field.fallback visit.value with
    | none => rfl
    | some data =>
      obtain ⟨text, htext⟩ := Option.isSome_iff_exists.mp (hscalar (by rw [htype]; rfl) data hresolve)
      simpa [htext] using isSome_fieldWrites? hcomposes hof (textContent · text) data
  | object =>
    cases visit.field.shape with
    | none => rfl
    | some fields =>
      simp only
      split
      · rfl
      · exact isSome_fieldWrites? hcomposes hof (fun _ => .touch) (visit.value.getD (.obj []))
  | objectArray => rfl

/-! ### How assembly can fail -/

/-- A run fails iff it does not come to its end. -/
theorem done?_eq_none_of_error {α : Type} {run : Planned α} {error : AssemblyError}
    (h : run.result = .error error) : run.done? = none := by
  rw [Planned.done?, h]

/-- A visit of an entry that composes fails in one way only. -/
theorem nonScalar_of_plan (hcomposes : entry.Composes) (hof : visit.Of entry) {error : AssemblyError}
    (h : visit.plan.result = .error error) : error = .nonScalar visit.path.render := by
  by_cases hscalar : visit.field.type.isObjectLike = false → ∀ data,
      resolveValue visit.field.transform visit.field.fallback visit.value = some data →
        (scalarText data).isSome = true
  · have hwrites := isSome_writes? hcomposes hof hscalar
    have hdone := done?_plan_visit visit
    rw [done?_eq_none_of_error h] at hdone
    rw [Option.map_eq_none_iff.mp hdone.symm] at hwrites
    cases hwrites
  · push Not at hscalar
    obtain ⟨htype, data, hresolve, htext⟩ := hscalar
    have htext : scalarText data = none := by simpa using htext
    rw [Visit.plan] at h
    cases hfield : visit.field.type with
    | scalar _ | choice _ =>
      rw [hfield] at h
      simp only [planScalar, hresolve, htext] at h
      exact (Except.error.inj h).symm
    | object | objectArray =>
      rw [hfield] at htype
      cases htype

/-- The error of visits is that of one of them. -/
theorem exists_plan_eq_error {all : List Visit} {error : AssemblyError}
    (h : (planVisits all).result = .error error) : ∃ visit ∈ all, visit.plan.result = .error error := by
  induction all with
  | nil => cases h
  | cons visit rest ih =>
    have hbind : (Planned.bind visit.plan fun _ => planVisits rest).result = .error error := h
    rw [Planned.bind] at hbind
    cases hvisit : visit.plan.result with
    | error first =>
      rw [hvisit] at hbind
      exact ⟨visit, List.mem_cons_self, by rw [hvisit]; exact hbind⟩
    | ok done =>
      rw [hvisit] at hbind
      obtain ⟨found, hfound, herror⟩ := ih hbind
      exact ⟨found, List.mem_cons_of_mem _ hfound, herror⟩

/-- Texts at absolute paths without markers can be placed before all fields. -/
theorem isSome_leadingWrites? {leading : List (String × String)}
    (hleading : ∀ entry ∈ leading, ∃ path, Path.read entry.1 = .ok path ∧ path.absolute = true ∧
      path.markers = []) :
    (leadingWrites? leading).isSome = true := by
  induction leading with
  | nil => rfl
  | cons entry rest ih =>
    obtain ⟨⟨path, hread, habsolute, hmarkers⟩, hrest⟩ := List.forall_mem_cons.mp hleading
    have hplaced : path.PlacedIn [] :=
      ⟨habsolute, Path.steps_ne_nil_of_read hread habsolute, by simp [hmarkers]⟩
    have hwrite : (writeAt? [] path (textContent path entry.2)).isSome = true := isSome_writeAt? _ hplaced rfl
    obtain ⟨first, hfirst⟩ := Option.isSome_iff_exists.mp hwrite
    obtain ⟨others, hothers⟩ := Option.isSome_iff_exists.mp (ih hrest)
    simp [leadingWrites?, hread, Except.toOption, hfirst, hothers]

variable {schema : Schema} {composed : ComposedSchema} {options : AssemblyOptions}

/-- A schema that composes is planned unless a value is not a scalar. -/
theorem nonScalar_of_plan_eq_error (hcompose : schema.compose = .ok composed)
    (hleading : ∀ entry ∈ options.leading,
      ∃ path, Path.read entry.1 = .ok path ∧ path.absolute = true ∧ path.markers = [])
    {data : Data} {error : AssemblyError} (h : (plan composed options.leading data).result = .error error) :
    ∃ path, error = .nonScalar path := by
  obtain ⟨hentries, -⟩ := (Schema.compose_eq_ok_iff schema).mp ⟨composed, hcompose⟩
  have hplan : (Planned.bind (planLeading options.leading) fun _ =>
      planVisits (visits composed data)).result = .error error := by
    rw [plan_eq] at h
    exact h
  rw [Planned.bind] at hplan
  cases hfirst : (planLeading options.leading).result with
  | error first =>
    have hdone := done?_planLeading options.leading
    have hsome := isSome_leadingWrites? hleading
    rw [done?_eq_none_of_error hfirst] at hdone
    rw [Option.map_eq_none_iff.mp hdone.symm] at hsome
    cases hsome
  | ok done =>
    rw [hfirst] at hplan
    obtain ⟨visit, hvisit, herror⟩ := exists_plan_eq_error hplan
    obtain ⟨entry, hentry, hof⟩ := of_entry_of_mem_visits hvisit
    rw [Schema.schema_of_compose hcompose] at hentry
    exact ⟨_, nonScalar_of_plan (hentries entry hentry) hof herror⟩

/-- **What can come of assembly.** With a schema that composes, and texts before the fields that
stand at absolute paths without markers, any data gives a document, or a value is not a scalar, or a
second root is asked for, or nothing is written at all. -/
theorem assemble_outcomes (hcompose : schema.compose = .ok composed)
    (hleading : ∀ entry ∈ options.leading,
      ∃ path, Path.read entry.1 = .ok path ∧ path.absolute = true ∧ path.markers = [])
    (data : Data) :
    (∃ document, assemble composed options data = .ok document) ∨
      ∃ error, assemble composed options data = .error error ∧
        ((∃ path, error = .nonScalar path) ∨ (∃ root xpath, error = .multipleRoots root xpath) ∨
          error = .noRoot) := by
  cases h : assemble composed options data with
  | ok document => exact .inl ⟨document, rfl⟩
  | error error =>
    refine .inr ⟨error, rfl, ?_⟩
    simp only [assemble, bind, Except.bind] at h
    split at h
    · rename_i first hplace
      obtain rfl := Except.error.inj h
      exact .inr (.inl (placeAll_eq_error hplace))
    · split at h
      · rename_i first hplan
        obtain rfl := Except.error.inj h
        exact .inl (nonScalar_of_plan_eq_error hcompose hleading hplan)
      · split at h
        · cases h
        · exact .inr (.inr (Except.error.inj h).symm)

theorem assemble_outcomes_titledNotes :
    ∃ composed, titledNotes.schema.compose = .ok composed ∧
      ((∃ document, assemble composed { leading := [("/doc/@id", "7")] } titledNotesData = .ok document) ∨
        ∃ error, assemble composed { leading := [("/doc/@id", "7")] } titledNotesData = .error error ∧
          ((∃ path, error = .nonScalar path) ∨ (∃ root xpath, error = .multipleRoots root xpath) ∨
            error = .noRoot)) := by
  have hok : titledNotes.schema.compose.toOption.isSome = true := by decide +kernel
  have hread : (Path.read "/doc/@id").toOption = some ⟨true, [⟨"doc", none⟩], some "id"⟩ := by decide +kernel
  cases hcompose : titledNotes.schema.compose with
  | error error =>
    rw [hcompose] at hok
    cases hok
  | ok composed =>
    refine ⟨composed, rfl, assemble_outcomes hcompose ?_ titledNotesData⟩
    intro entry hentry
    obtain rfl := List.mem_singleton.mp hentry
    cases hpath : Path.read "/doc/@id" with
    | error fault =>
      rw [hpath] at hread
      cases hread
    | ok path =>
      rw [hpath] at hread
      obtain rfl := Option.some.inj hread
      exact ⟨_, rfl, rfl, rfl⟩

end Assembly

end InvoiceXml
