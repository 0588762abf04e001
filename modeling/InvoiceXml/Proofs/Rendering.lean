import InvoiceXml.Proofs.Assembly.WriteList
import InvoiceXml.Proofs.Likeness
import InvoiceXml.Rendering.Basic

/-!
# Renderers

A renderer is a composed profile, and it accepts what the merged schema of the profile accepts
(`of_create`, `create_of_compose`, `of_validate`, `exists_validate`); what it renders is the source
of a document (`render_eq_ok`). Of the data that it is given it sees what that schema declares, and
the markup does not show when it was made (`render_time`).

* **`render_of_alike`**: data that looks alike to the schema has one normal form and one markup, or
  one error.
-/

namespace InvoiceXml

namespace Renderer

/-- A renderer is its composed profile. -/
theorem of_create {profile : Profile} {markup : MarkupOptions} {renderer : Renderer}
    (h : create profile markup = .ok renderer) :
    ∃ composed, profile.compose = .ok composed ∧ renderer = { profile, composed, markup } := by
  rw [create] at h
  split at h
  · rename_i composed hcompose
    exact ⟨composed, hcompose, (Except.ok.inj h).symm⟩
  · cases h

/-- A profile that composes has a renderer. -/
theorem create_of_compose {profile : Profile} {composed : ComposedSchema}
    (hcompose : profile.compose = .ok composed) (markup : MarkupOptions) :
    create profile markup = .ok { profile, composed, markup } := by
  rw [create, hcompose]

/-- A renderer accepts what its schema accepts. -/
theorem of_validate {renderer : Renderer} {input normal : Data} (h : renderer.validate input = .ok normal) :
    renderer.composed.schema.validate input = .ok normal := by
  rw [validate] at h
  split at h
  · rename_i found hfound
    rw [hfound, Except.ok.inj h]
  · cases h

/-- A renderer accepts data that the merged schema of its profile accepts. -/
theorem exists_validate {profile : Profile} {composed : ComposedSchema}
    (hcompose : profile.compose = .ok composed) (markup : MarkupOptions) {input : Data}
    (h : (profile.mergedSchema.validate input).toOption.isSome = true) :
    ∃ normal, validate { profile, composed, markup } input = .ok normal := by
  cases hnormal : profile.mergedSchema.validate input with
  | error error =>
    rw [hnormal] at h
    cases h
  | ok normal => exact ⟨normal, by rw [validate, Schema.schema_of_compose hcompose, hnormal]⟩

/-- What is rendered from valid data is the source of its document. -/
theorem render_eq_ok {renderer : Renderer} {time : Option Instant} {input normal : Data} {document : Document}
    (hvalid : renderer.validate input = .ok normal)
    (hdocument : Assembly.assemble renderer.composed (assemblyOptions renderer.profile time)
      normal = .ok document) :
    renderer.render time input = .ok (Markup.source renderer.markup document.root) := by
  have hstage : renderer.document time normal = .ok document := by rw [Renderer.document, hdocument]
  rw [render, hvalid]
  change renderer.document time normal >>= (fun document => .ok (renderer.write document)) = _
  rw [hstage]
  rfl

/-- What is known about a document has no part in how it is assembled. -/
theorem assemble_withMetadata (composed : ComposedSchema) (options : AssemblyOptions) (metadata : Metadata)
    (data : Data) :
    Assembly.assemble composed { options with metadata } data =
      (Assembly.assemble composed options data).map fun document => { document with metadata } := by
  simp only [Assembly.assemble, bind, Except.bind]
  split
  · rfl
  · rename_i root hplace
    cases (Assembly.plan composed options.leading data).result with
    | error error => rfl
    | ok done => cases root <;> rfl

/-- The markup of a document does not tell when the document was made. -/
theorem render_time (renderer : Renderer) (time later : Option Instant) (input : Data) :
    renderer.render time input = renderer.render later input := by
  have hdocument : ∀ data, (renderer.document time data).map renderer.write =
      (renderer.document later data).map renderer.write := by
    intro data
    have hassemble := assemble_withMetadata renderer.composed (assemblyOptions renderer.profile later)
      { metadata renderer.profile with createdAt := time } data
    change Assembly.assemble renderer.composed (assemblyOptions renderer.profile time) data = _ at hassemble
    rw [document, document, hassemble]
    cases Assembly.assemble renderer.composed (assemblyOptions renderer.profile later) data <;> rfl
  have hrender : ∀ moment, renderer.render moment input =
      renderer.validate input >>= fun data => (renderer.document moment data).map renderer.write :=
          fun moment => by
    rw [render]
    cases renderer.validate input with
    | error error => rfl
    | ok data => cases renderer.document moment data <;> rfl
  rw [hrender, hrender]
  simp only [hdocument]

/-- **What is not declared does not matter.** Data that looks alike to the schema of a profile has
the same normal form, or the same error, and is rendered to the same markup, or with the same error,
whenever that is. -/
theorem render_of_alike {profile : Profile} {markup : MarkupOptions} {renderer : Renderer}
    {input other : Data} (hcreate : create profile markup = .ok renderer)
    (halike : Schema.Alike profile.mergedSchema input other) (time later : Option Instant) :
    renderer.validate input = renderer.validate other ∧
      renderer.render time input = renderer.render later other := by
  obtain ⟨composed, hcompose, rfl⟩ := of_create hcreate
  have hsame : validate { profile, composed, markup } input =
      validate { profile, composed, markup } other := by
    rw [validate, validate, Schema.schema_of_compose hcompose, Schema.validate_of_alike halike]
  refine ⟨hsame, (render_time _ time later input).trans ?_⟩
  rw [render, render, hsame]

/-- A note with a text and nothing else. -/
def noteData (text : String) : Data := .obj [("text", .str text)]

/-- A note with a text after an author and a null, neither of which is declared. -/
def signedNoteData (text : String) : Data :=
  .obj [("author", .str "b"), ("state", .null), ("text", .str text)]

theorem alike_signedNoteData (text : String) (members : List String) (xpath : String) :
    Schema.Alike [("text", (Field.ofChoice members).placedAt xpath)]
      (noteData text) (signedNoteData text) := by
  refine .object fun name field hmem => ?_
  obtain ⟨rfl, rfl⟩ := Prod.mk.inj (List.mem_singleton.mp hmem)
  exact .scalar rfl

theorem render_of_alike_signedNotes :
    let profile := Profile.ofSchema "notes" Assembly.titledNotes.schema
    let input : Data :=
      .obj [("title", .str "draft"), ("notes", .arr [noteData "a"]), ("state", .str "final")]
    let other : Data := .obj [("state", .str "final"), ("remarks", .null), ("draft", .bool true),
      ("notes", .arr [signedNoteData "a"]), ("title", .str "draft")]
    ∃ renderer, create profile {} = .ok renderer ∧ Schema.Alike profile.mergedSchema input other ∧
      (renderer.render none input).toOption.isSome = true ∧
      renderer.validate input = renderer.validate other ∧
          renderer.render none input = renderer.render none other := by
  intro profile input other
  have halike : Schema.Alike profile.mergedSchema input other := by
    refine .object fun name field hmem => ?_
    have hmem : (name, field) ∈ Assembly.titledNotes.schema := hmem
    simp only [Assembly.titledNotes, List.mem_cons, List.not_mem_nil, or_false, Prod.mk.injEq] at hmem
    rcases hmem with ⟨rfl, rfl⟩ | ⟨rfl, rfl⟩ | ⟨rfl, rfl⟩ | ⟨rfl, rfl⟩
    · exact .scalar rfl
    · refine .array rfl rfl rfl fun i item another hitem hother => ?_
      cases i with
      | zero =>
        obtain rfl := Option.some.inj hitem
        obtain rfl := Option.some.inj hother
        exact .object (alike_signedNoteData "a" _ _)
      | succ i => cases hitem
    · exact .missing
    · exact .scalar rfl
  have hok : (create profile {}).toOption.any (fun renderer =>
      (renderer.render none input).toOption.isSome) = true :=
    by decide +kernel
  cases hcreate : create profile {} with
  | error error =>
    rw [hcreate] at hok
    cases hok
  | ok renderer =>
    rw [hcreate] at hok
    exact ⟨renderer, rfl, halike, hok, render_of_alike hcreate halike none none⟩

end Renderer

end InvoiceXml
