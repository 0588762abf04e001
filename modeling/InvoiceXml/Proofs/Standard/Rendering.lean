import InvoiceXml.Proofs.Assembly.Scope
import InvoiceXml.Proofs.Rendering
import InvoiceXml.Proofs.Standard.Kind
import InvoiceXml.Proofs.Validation

/-!
# Rendering with a standard profile

The merged schema of a standard level is laid out (`Schema.isLaidOut`): each field has the groups
around it that its names say, names are not declared twice, and groups can be registered in order.
With what is known of the places and kinds of its fields this is all that rendering needs.

* `exists_compose`: the profile of every level composes;
* `scalarText_of_mem_visitsOfFields`: valid data has scalars where scalars are placed;
* **`exists_writeList`**: valid data has a write list, and all its writes start at one root;
* **`render_outcomes`**: rendering with a standard profile fails in validation or not at all.
-/

namespace InvoiceXml

open Standard (Stands groupsAround)

/-! ### The layout of the merged schemas -/

/-- Whether the field has the groups around it that its names say, and a shape that fits its type. -/
def Entry.isLaidOut (entry : Entry) : Bool :=
  entry.scope == groupsAround entry.names && entry.field.type.isObjectLike == entry.field.shape.isSome &&
    (entry.field.sibling.isNone || entry.field.boundGroup?.isSome) &&
    entry.field.shape.all fun fields => decide (fields.map (·.1)).Nodup

/-- Whether all fields are laid out, no name is declared twice, and the groups can be registered in order. -/
def Schema.isLaidOut (schema : Schema) : Bool :=
  decide (schema.map (·.1)).Nodup && schema.entries.all Entry.isLaidOut && registers [] schema.boundGroups

theorem Level.isLaidOut_mergedSchema (level : Level) : level.profile.mergedSchema.isLaidOut = true := by
  cases level <;> decide +kernel

/-- A field of a merged schema: it is laid out, stands where its names place it, and is of its kind. -/
structure Entry.IsStandard (entry : Entry) : Prop where
  scope : entry.scope = groupsAround entry.names
  shape : entry.field.type.isObjectLike = entry.field.shape.isSome
  sibling : entry.field.sibling.isSome = true → entry.field.boundGroup?.isSome = true
  distinct : ∀ fields, entry.field.shape = some fields → (fields.map (·.1)).Nodup
  place : entry.field.StandsAt entry.names
  kind : entry.field.KindAt entry.names

namespace Level

theorem nodup_names_mergedSchema (level : Level) : (level.profile.mergedSchema.map (·.1)).Nodup := by
  have h := isLaidOut_mergedSchema level
  rw [Schema.isLaidOut, Bool.and_eq_true, Bool.and_eq_true] at h
  exact of_decide_eq_true h.1.1

theorem isStandard_of_mem_entries (level : Level) :
    ∀ entry ∈ level.profile.mergedSchema.entries, entry.IsStandard := by
  intro entry hentry
  have h := isLaidOut_mergedSchema level
  rw [Schema.isLaidOut, Bool.and_eq_true, Bool.and_eq_true] at h
  have hlaid := List.all_eq_true.mp h.1.2 entry hentry
  rw [Entry.isLaidOut, Bool.and_eq_true, Bool.and_eq_true, Bool.and_eq_true] at hlaid
  obtain ⟨⟨⟨hscope, hshape⟩, hsibling⟩, hdistinct⟩ := hlaid
  refine ⟨eq_of_beq hscope, eq_of_beq hshape, ?_, ?_,
    (Schema.fieldsHold_iff [] [] _).mp (fieldsHold_standsAt level) entry hentry,
    (Schema.fieldsHold_iff [] [] _).mp (fieldsHold_kindAt level) entry hentry⟩
  · intro hsome
    rw [Bool.or_eq_true] at hsibling
    rcases hsibling with hnone | hbound
    · rw [Option.isNone_iff_eq_none.mp hnone] at hsome
      cases hsome
    · exact hbound
  · intro fields hfields
    rw [hfields] at hdistinct
    simpa using hdistinct

end Level

/-! ### Composition -/

namespace Standard

theorem anchor_eq_cons (names : List String) : ∃ rest, anchor names = invoiceStep :: rest := by
  unfold anchor
  split <;> exact ⟨_, rfl⟩

end Standard

namespace Entry

variable {entry : Entry}

theorem placedIn_of_stands {path : Path} (hscope : entry.scope = groupsAround entry.names)
    (hstands : Stands entry.names path) : path.PlacedIn entry.scope := by
  obtain ⟨rest, hanchor⟩ := Standard.anchor_eq_cons entry.names
  refine ⟨hstands.absolute, ?_, ?_⟩
  · rw [hstands.anchored, hanchor]
    exact List.cons_ne_nil _ _
  · rw [hscope]
    exact hstands.markers

end Entry

namespace Field

variable {names : List String} {field : Field}

/-- An extra of a field is an attribute of its element. -/
theorem StandsAt.exists_extraPath (h : field.StandsAt names) {extra : String × ExtraValue}
    (hextra : extra ∈ field.extraEntries) :
    ∃ own attr, field.ownPath? = some own ∧ Stands names own ∧
      GroupIndex.extraPath? field.ownPath? extra.1 = some { own with attr := some attr } := by
  obtain ⟨hsome, path, hread, hrelative, hsteps, hattr⟩ := h.extras extra hextra
  obtain ⟨xpath, hxpath⟩ := Option.isSome_iff_exists.mp hsome
  obtain ⟨own, hown, hstands⟩ := h.own xpath hxpath
  obtain ⟨attr, hattr⟩ := Option.isSome_iff_exists.mp hattr
  have hpath : field.ownPath? = some own := by
    rw [ownPath?, hxpath, Option.bind_some, hown]
    rfl
  refine ⟨own, attr, hpath, hstands, ?_⟩
  rw [hpath]
  simp [GroupIndex.extraPath?, hread, Except.toOption, hrelative, Path.join, hsteps, hattr]

end Field

theorem Entry.IsStandard.composes {entry : Entry} (h : entry.IsStandard) : entry.Composes := by
  refine ⟨?_, ?_, h.sibling⟩
  · intro xpath hxpath
    obtain ⟨path, hread, hstands⟩ := h.place.own xpath hxpath
    exact ⟨path, hread, entry.placedIn_of_stands h.scope hstands⟩
  · intro extra hextra
    obtain ⟨own, attr, -, hstands, hpath⟩ := h.place.exists_extraPath hextra
    have hplaced := entry.placedIn_of_stands h.scope hstands
    exact ⟨_, hpath, hplaced.absolute, hplaced.steps, hplaced.markers⟩

/-- The profile of every standard level composes. -/
theorem Level.exists_compose (level : Level) : ∃ composed, level.profile.compose = .ok composed := by
  have h := isLaidOut_mergedSchema level
  rw [Schema.isLaidOut, Bool.and_eq_true] at h
  refine (Schema.compose_eq_ok_iff _).mpr ⟨?_, h.2⟩
  intro entry hentry
  exact (isStandard_of_mem_entries level entry hentry).composes

/-! ### Writes -/

open Assembly (scalarText resolveValue textContent writeAt? writeAt?_eq_some mem_fieldWrites?)

/-- The text of the scalar or choice at a visit, if it has one. -/
def Visit.text? (visit : Visit) : Option String :=
  (resolveValue visit.field.transform visit.field.fallback visit.value).bind scalarText

theorem Assembly.text?_textContent {path : Path} {text found : String}
    (h : (textContent path text).text? = some found) : text = found := by
  rw [textContent] at h
  cases hattr : path.attr with
  | none =>
    rw [hattr] at h
    exact Option.some.inj h
  | some name =>
    rw [hattr] at h
    cases h

variable {entry : Entry} {visit : Visit}

/-- A write of a visit goes to the path of the field, with the text of the visit if there is one, or
to the path of an extra, with the text of that. -/
theorem Visit.mem_writes? {writes : List Write} {write : Write} (h : visit.writes? = some writes)
    (hmem : write ∈ writes) :
    (∃ path content, visit.field.ownPath? = some path ∧ writeAt? visit.bindings path content = some write ∧
      (content = .touch ∨ ∃ text, visit.text? = some text ∧ content = textContent path text)) ∨
    ∃ extra ∈ visit.field.extraEntries, ∃ path text,
      GroupIndex.extraPath? visit.field.ownPath? extra.1 = some path ∧
      (∃ value, extra.2.render value = some text) ∧
        writeAt? visit.bindings path (textContent path text) = some write := by
  rw [Visit.writes?] at h
  cases htype : visit.field.type with
  | scalar _ | choice _ =>
    rw [htype] at h
    cases hresolve : resolveValue visit.field.transform visit.field.fallback visit.value with
    | none =>
      rw [hresolve] at h
      obtain rfl := Option.some.inj h
      cases hmem
    | some data =>
      simp only [hresolve, Option.bind_eq_bind, Option.bind_eq_some_iff] at h
      obtain ⟨text, htext, h⟩ := h
      have hvisit : visit.text? = some text := by rw [Visit.text?, hresolve, Option.bind_some, htext]
      refine (mem_fieldWrites? h hmem).imp_left fun hown => ?_
      obtain ⟨path, hpath, hwrite⟩ := hown
      exact ⟨path, _, hpath, hwrite, .inr ⟨text, hvisit, rfl⟩⟩
  | object =>
    rw [htype] at h
    cases hshape : visit.field.shape with
    | none =>
      rw [hshape] at h
      obtain rfl := Option.some.inj h
      cases hmem
    | some fields =>
      simp only [hshape] at h
      split at h
      · obtain rfl := Option.some.inj h
        cases hmem
      · refine (mem_fieldWrites? h hmem).imp_left fun hown => ?_
        obtain ⟨path, hpath, hwrite⟩ := hown
        exact ⟨path, _, hpath, hwrite, .inl rfl⟩
  | objectArray =>
    rw [htype] at h
    obtain rfl := Option.some.inj h
    cases hmem

/-- A write of a standard field is at the element where its names place it; only the scalar itself
writes a text there. -/
theorem Entry.IsStandard.mem_writes? (hentry : entry.IsStandard) (hof : visit.Of entry) {writes : List Write}
    {write : Write} (h : visit.writes? = some writes) (hmem : write ∈ writes) :
    ∃ path, visit.field.ownPath? = some path ∧ Stands entry.names path ∧
      write.address = path.steps.map (Step.numbered visit.bindings) ∧
      ∀ text, write.content.text? = some text → visit.text? = some text := by
  have hplace := hentry.place
  rw [← hof.field] at hplace
  rcases Visit.mem_writes? h hmem with ⟨path, content, hpath, hwrite, hcontent⟩ |
    ⟨extra, hextra, path, text, hpath, -, hwrite⟩
  · obtain ⟨haddress, rfl⟩ := writeAt?_eq_some hwrite
    obtain ⟨xpath, hxpath, hread⟩ := Option.bind_eq_some_iff.mp hpath
    obtain ⟨own, hown, hstands⟩ := hplace.own xpath hxpath
    obtain rfl : own = path := by simpa [hown, Except.toOption] using hread
    refine ⟨own, hpath, hstands, haddress, fun found hfound => ?_⟩
    rcases hcontent with htouch | ⟨text, htext, hcontent⟩
    · rw [htouch] at hfound
      cases hfound
    · rw [hcontent] at hfound
      rw [htext, Assembly.text?_textContent hfound]
  · obtain ⟨own, attr, hown, hstands, hextraPath⟩ := hplace.exists_extraPath hextra
    obtain rfl := Option.some.inj (hextraPath.symm.trans hpath)
    obtain ⟨haddress, hcontent⟩ := writeAt?_eq_some hwrite
    refine ⟨own, hown, hstands, haddress, fun found hfound => ?_⟩
    rw [hcontent] at hfound
    cases hfound

/-! ### Valid data -/

open Assembly (visits visitsOfFields mem_visitsOfFields mem_visitsOfField itemsOf itemData)
open Validation (Normalizes)

theorem exists_of_forall₂_getElem? {α β : Type} {related : α → β → Prop} {first : List α} {second : List β}
    (h : List.Forall₂ related first second) {i : Nat} {b : β} (hb : second[i]? = some b) :
    ∃ a, first[i]? = some a ∧ related a b := by
  induction h generalizing i with
  | nil => cases hb
  | cons hhead _ ih =>
    cases i with
    | zero =>
      obtain rfl := Option.some.inj hb
      exact ⟨_, rfl, hhead⟩
    | succ i => exact ih hb

/-- What valid data has inside a field is valid under its shape. -/
theorem Assembly.Inside.normalizes {groups : GroupIndex} {bindings innerBindings : Bindings}
    {path innerPath : FieldPath} {fields below : List (String × Field)} {input normal : Data} {name : String}
    {field : Field} {frame innerFrame : Frame} {innerData : Data} (hnormal : Normalizes fields input normal)
    (hdistinct : (fields.map (·.1)).Nodup) (hmem : (name, field) ∈ fields) (hshape : field.shape = some below)
    (h : Inside groups bindings path (normal.present? name) field frame innerBindings innerPath innerData
      innerFrame) : ∃ innerInput, Normalizes below innerInput innerData := by
  have hitem : field.type = .objectArray → ∀ (i : Nat) (item : Data),
      (itemsOf (normal.present? name))[i]? = some item →
        ∃ innerInput, Normalizes below innerInput (itemData item) := by
    intro htype i item hitem
    obtain ⟨found, -, hfound⟩ := exists_of_forall₂_getElem?
      (hnormal.array hdistinct hmem htype hshape) hitem
    rw [itemData, hfound.isNull_eq_false]
    exact ⟨_, hfound⟩
  cases h with
  | object htype =>
    obtain ⟨value, hvalue, hinner⟩ := hnormal.object hdistinct hmem htype hshape
    rw [hvalue, Option.getD_some]
    exact ⟨_, hinner⟩
  | shared htype _ _ hfound => exact hitem htype _ _ hfound
  | bound htype _ hfound => exact hitem htype _ _ hfound

/-- The value of a plain field in valid data is a scalar, or the one it falls back on is. -/
theorem scalarText_of_normalizes {fields : List (String × Field)} {input normal : Data}
    {name : String} {field : Field} (hnormal : Normalizes fields input normal)
    (hdistinct : (fields.map (·.1)).Nodup) (hmem : (name, field) ∈ fields) (hplain : field.IsPlain)
    (htype : field.type.isObjectLike = false) {data : Data}
    (hresolve : resolveValue field.transform field.fallback (normal.present? name) = some data) :
    (scalarText data).isSome = true := by
  have hvalue : normal.get? name = none ∨ ∃ value, normal.get? name = some value ∧
      (scalarText value).isSome = true := by
    cases hfield : field.type with
    | scalar validator =>
      rcases hnormal.scalar hdistinct hmem hfield with ⟨-, -, hnone⟩ | ⟨value, hcheck, hget⟩
      · exact .inl hnone
      · exact .inr ⟨value, hget, (hplain.type validator hfield).isSome _ _ hcheck⟩
    | choice members =>
      rcases hnormal.choice hdistinct hmem hfield with hnone | ⟨text, -, hget⟩
      · exact .inl hnone
      · exact .inr ⟨.str text, hget, rfl⟩
    | object | objectArray =>
      rw [hfield] at htype
      cases htype
  have hresolve : (normal.present? name).or field.fallback = some data := by
    unfold resolveValue at hresolve
    rw [hplain.transform] at hresolve
    obtain ⟨hchosen, -⟩ := Option.filter_eq_some_iff.mp hresolve
    cases hpresent : normal.present? name <;> simpa [hpresent] using hchosen
  rcases Option.or_eq_some_iff.mp hresolve with h | ⟨-, h⟩
  · rw [Data.present?] at h
    obtain ⟨h, -⟩ := Option.filter_eq_some_iff.mp h
    rcases hvalue with hnone | ⟨value, hget, hscalar⟩
    · rw [hnone] at h
      cases h
    · rw [hget] at h
      obtain rfl := Option.some.inj h
      exact hscalar
  · exact hplain.fallback data h

/-- Whether fields are plain, and shapes declare no name twice. -/
def Field.IsSound (_names : List String) (field : Field) : Prop :=
  field.IsPlain ∧ ∀ fields, field.shape = some fields → (fields.map (·.1)).Nodup

/-- Valid data has scalars where scalars are placed. -/
theorem scalarText_of_mem_visitsOfFields {groups : GroupIndex} : ∀ (fields : List (String × Field))
    {names : List String} {bindings : Bindings} {path : FieldPath} {input normal : Data} {frame : Frame}
    {visit : Visit}, Schema.FieldsHold Field.IsSound names fields → (fields.map (·.1)).Nodup →
      Normalizes fields input normal → visit ∈ visitsOfFields groups bindings path normal fields frame →
        visit.field.type.isObjectLike = false → ∀ data,
          resolveValue visit.field.transform visit.field.fallback visit.value = some data →
            (scalarText data).isSome = true := by
  refine Schema.induction_on_shapes fun fields ih => ?_
  intro names bindings path input normal frame visit hsound hdistinct hnormal hvisit htype data hresolve
  obtain ⟨before, name, field, after, hfields, hfield⟩ := mem_visitsOfFields.mp hvisit
  have hmem : (name, field) ∈ fields := by simp [hfields]
  obtain ⟨⟨hplain, hbelow⟩, hshapes⟩ :=
    Schema.fieldHolds_iff_shape.mp (Schema.fieldsHold_iff_mem.mp hsound name field hmem)
  rcases mem_visitsOfField.mp hfield with rfl | ⟨below, hshape, _, _, _, _, hinside, hinner⟩
  · exact scalarText_of_normalizes hnormal hdistinct hmem hplain htype hresolve
  · obtain ⟨innerInput, hinput⟩ := hinside.normalizes hnormal hdistinct hmem hshape
    exact ih name field below hmem hshape (hshapes below hshape) (hbelow below hshape) hinput hinner
      htype data hresolve

/-! ### Documents -/

namespace Level

open Assembly (writesOf mem_writesOf writeList leadingWrites? assemble placeAll_of_startsAt)

variable {level : Level} {composed : ComposedSchema} {input normal : Data}

theorem isStandard_of_mem_visits (hcompose : level.profile.compose = .ok composed) {data : Data}
    {visit : Visit} (hvisit : visit ∈ visits composed data) :
    ∃ entry : Entry, entry.IsStandard ∧ visit.Of entry := by
  obtain ⟨entry, hentry, hof⟩ := Assembly.of_entry_of_mem_visits hvisit
  rw [Schema.schema_of_compose hcompose] at hentry
  exact ⟨entry, isStandard_of_mem_entries level entry hentry, hof⟩

/-- Visits have writes if each of them has. -/
theorem isSome_writesOf {all : List Visit} (h : ∀ visit ∈ all, visit.writes?.isSome = true) :
    (writesOf all).isSome = true := by
  induction all with
  | nil => rfl
  | cons visit rest ih =>
    obtain ⟨hvisit, hrest⟩ := List.forall_mem_cons.mp h
    obtain ⟨own, hown⟩ := Option.isSome_iff_exists.mp hvisit
    obtain ⟨others, hothers⟩ := Option.isSome_iff_exists.mp (ih hrest)
    simp [writesOf, hown, hothers]

/-- Every visit of valid data has its writes. -/
theorem isSome_writesOf_visits (hcompose : level.profile.compose = .ok composed)
    (hvalid : composed.schema.validate input = .ok normal) :
    (writesOf (visits composed normal)).isSome = true := by
  have hschema := Schema.schema_of_compose hcompose
  have hsound : Schema.FieldsHold Field.IsSound [] composed.schema := by
    rw [hschema, Schema.fieldsHold_iff [] []]
    intro entry hentry
    have hstandard := isStandard_of_mem_entries level entry hentry
    exact ⟨hstandard.kind.plain, hstandard.distinct⟩
  have hdistinct : (composed.schema.map (·.1)).Nodup := hschema ▸ nodup_names_mergedSchema level
  refine isSome_writesOf fun visit hvisit => ?_
  obtain ⟨entry, hentry, hof⟩ := isStandard_of_mem_visits hcompose hvisit
  exact Assembly.isSome_writes? hentry.composes hof
    (scalarText_of_mem_visitsOfFields _ hsound hdistinct (Validation.normalizes_of_validate hvalid) hvisit)

/-- Where the guideline of a document stands. -/
def guidelineAddress : List (String × Nat) :=
  [("rsm:CrossIndustryInvoice", 0), ("rsm:ExchangedDocumentContext", 0),
    ("ram:GuidelineSpecifiedDocumentContextParameter", 0), ("ram:ID", 0)]

/-- The name of the guideline is what stands before all fields. -/
theorem leading_profile (level : Level) :
    Renderer.leading level.profile = [(Standard.guideline, level.contextParameter)] := by
  cases level <;> rfl

theorem read_guideline :
    Path.read Standard.guideline = .ok ⟨true, guidelineAddress.map fun step => ⟨step.1, none⟩, none⟩ :=
  Path.read_of_readAscii (by decide +kernel)

theorem exists_guidelineWrite (text : String) :
    ∃ write, leadingWrites? [(Standard.guideline, text)] = some [write] ∧ write.address = guidelineAddress ∧
      write.content = .text text :=
  ⟨_, by simp only [leadingWrites?, read_guideline]; rfl, rfl, rfl⟩

/-- **Valid data has a write list.** It starts with the guideline, and all writes start at one root. -/
theorem exists_writeList (hcompose : level.profile.compose = .ok composed)
    (hvalid : composed.schema.validate input = .ok normal) :
    ∃ guideline others, writeList composed (Renderer.leading level.profile) normal =
      some (guideline :: others) ∧
      guideline.address = guidelineAddress ∧ guideline.content = .text level.contextParameter ∧
      writesOf (visits composed normal) = some others ∧
      ∀ write ∈ guideline :: others, write.StartsAt "rsm:CrossIndustryInvoice" := by
  obtain ⟨others, hothers⟩ := Option.isSome_iff_exists.mp (isSome_writesOf_visits hcompose hvalid)
  obtain ⟨guideline, hleading, haddress, hcontent⟩ := exists_guidelineWrite level.contextParameter
  have hstarts : ∀ write : Write, ∀ rest, write.address = ("rsm:CrossIndustryInvoice", 0) :: rest →
      write.StartsAt "rsm:CrossIndustryInvoice" := by
    intro write rest h
    obtain ⟨hroot, -⟩ := List.cons.inj h
    exact ⟨congrArg Prod.fst hroot, congrArg Prod.snd hroot⟩
  refine ⟨guideline, others, ?_, haddress, hcontent, hothers, ?_⟩
  · simp [writeList, leading_profile, hleading, hothers]
  · rw [List.forall_mem_cons]
    refine ⟨hstarts guideline _ haddress, fun write hwrite => ?_⟩
    obtain ⟨visit, hvisit, own, hown, hmem⟩ := (mem_writesOf hothers write).mp hwrite
    obtain ⟨entry, hentry, hof⟩ := isStandard_of_mem_visits hcompose hvisit
    obtain ⟨path, -, hstands, hpath, -⟩ := hentry.mem_writes? hof hown hmem
    obtain ⟨rest, hanchor⟩ := Standard.anchor_eq_cons entry.names
    rw [hstands.anchored, hanchor] at hpath
    exact hstarts write _ hpath

/-- Valid data is assembled. -/
theorem exists_document (hcompose : level.profile.compose = .ok composed)
    (hvalid : composed.schema.validate input = .ok normal) (time : Option Instant) :
    ∃ document, assemble composed (Renderer.assemblyOptions level.profile time) normal = .ok document := by
  obtain ⟨guideline, others, hwrites, -, -, -, hstarts⟩ := exists_writeList hcompose hvalid
  have hplace := placeAll_of_startsAt level.profile.info.root.namespaces (List.cons_ne_nil _ _) hstarts
  exact ⟨_, Assembly.assemble_eq_ok hwrites hplace⟩

/-- **Rendering with a standard profile can only fail in validation.** Every standard profile has a
renderer, and with it any input gives a document or an error of validation. -/
theorem render_outcomes (level : Level) (markup : MarkupOptions) :
    ∃ renderer, Renderer.create level.profile markup = .ok renderer ∧
      ∀ (time : Option Instant) (input : Data),
        (∃ text, renderer.render time input = .ok text) ∨
          ∃ error, renderer.render time input = .error error ∧ error.code = "VALIDATION" := by
  obtain ⟨composed, hcompose⟩ := exists_compose level
  refine ⟨⟨level.profile, composed, markup⟩, by rw [Renderer.create, hcompose], fun time input => ?_⟩
  simp only [Renderer.render, Renderer.validate]
  cases hvalid : composed.schema.validate input with
  | error error => exact .inr ⟨.validation error, rfl, rfl⟩
  | ok normal =>
    obtain ⟨document, hdocument⟩ := exists_document hcompose hvalid time
    exact .inl ⟨_, by simp only [bind, Except.bind, Renderer.document, hdocument]; rfl⟩

end Level

end InvoiceXml
