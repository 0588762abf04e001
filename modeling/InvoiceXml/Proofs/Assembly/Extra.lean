import InvoiceXml.Proofs.Assembly.WriteList

/-!
# Fixed extras in a document

Composing a schema accepts the paths of all extras, whatever the field. Assembling writes the extras
of a field where the field has a value or an element of its own (`Visit.WritesExtras`), and so what
a fixed extra designates is there.

* `exists_at?_of_mem_writeList`: where a write goes, the document has an element, with the attribute
  that is written;
* `exists_mem_writes?`: a fixed extra has a write where the extras of its field are written;
* **`exists_at?_of_fixed`**: so the document has what it designates. An object field without a path
  writes none of them.
-/

namespace InvoiceXml

/-- Whether an extra is a text or a truth value, not computed. -/
def ExtraValue.IsFixed : ExtraValue → Prop
  | text _ | flag _ => True
  | derived _ => False

/-- Whether a field writes its extras where it is met: a scalar or choice that has a value, and an
object with fields that has a path. -/
def Visit.WritesExtras (visit : Visit) : Prop :=
  match visit.field.type with
  | .scalar _ | .choice _ =>
    (Assembly.resolveValue visit.field.transform visit.field.fallback visit.value).isSome = true
  | .object => visit.field.shape.isSome = true ∧ visit.field.xpath.isSome = true
  | .objectArray => False

/-- A way passes its own end. -/
theorem Element.passes_self {way : List (String × Nat)} (h : way ≠ []) : Passes way way :=
  ⟨way.dropLast, (way.getLast h).1, (way.getLast h).2, (way.getLast h).2,
    (List.dropLast_concat_getLast h).symm, Nat.le_refl _,
    (List.dropLast_concat_getLast h).symm ▸ List.prefix_refl _⟩

namespace Assembly

/-- A fixed extra has a text, whatever the value of its field. -/
theorem exists_render_of_isFixed {extra : ExtraValue} (h : extra.IsFixed) :
    ∃ text, ∀ owner, extra.render owner = some text := by
  cases extra with
  | text text => exact ⟨text, fun _ => rfl⟩
  | flag flag => exact ⟨ExtraValue.flagText flag, fun _ => rfl⟩
  | derived _ => cases h

/-! ### What writes leave -/

/-- What is written last to an attribute is there if something is. -/
theorem exists_lastAttr (namespaces : List (String × String)) {writes : List Write} {write : Write}
    {key value : String} (hmem : write ∈ writes) (hcontent : write.content = .attr key value) :
    ∃ last, lastAttr namespaces writes write.address key = some last := by
  have hvalue : value ∈ writes.filterMap fun other =>
      if other.address = write.address then other.content.attrValue? key else none :=
    List.mem_filterMap.mpr ⟨write, hmem, by simp [hcontent, Content.attrValue?]⟩
  exact ⟨_, by rw [lastAttr, List.getLast?_eq_some_getLast (List.ne_nil_of_mem hvalue), Option.some_or]⟩

variable {composed : ComposedSchema} {options : AssemblyOptions} {data : Data} {document : Document}

/-- **What is written is there.** -/
theorem exists_at?_of_mem_writeList (h : assemble composed options data = .ok document)
    {writes : List Write} (hwrites : writeList composed options.leading data = some writes)
    {write : Write} (hmem : write ∈ writes) :
    ∃ element, document.at? write.address = some element ∧
      ∀ key value, write.content = .attr key value → ∃ last, (key, last) ∈ element.attrs := by
  obtain ⟨placed, hplaced, hplace⟩ := placeAll_writeList h
  obtain rfl : writes = placed := Option.some.inj (hwrites.symm.trans hplaced)
  obtain ⟨hroot, hall⟩ := placeAll_eq_ok hplace
  -- the root is there as soon as there is a document, and all else where some write passes
  obtain ⟨element, hat⟩ : ∃ element, document.at? write.address = some element := by
    by_cases hself : write.address = [(document.root.name, 0)]
    · exact ⟨document.root, by rw [hself, Document.at?, if_pos rfl, Element.along?]⟩
    · have hpasses : Element.Passes write.address write.address :=
        Element.passes_self (by rw [Write.address]; exact List.cons_ne_nil _ _)
      exact Option.isSome_iff_exists.mp ((isSome_at?_withWrites hroot hall _ hself).mpr ⟨write,
        hmem, hpasses⟩)
  refine ⟨element, hat, fun key value hcontent => ?_⟩
  obtain ⟨last, hlast⟩ := exists_lastAttr options.namespaces hmem hcontent
  exact ⟨last, (mem_attrs_at?_withWrites hroot hall hat key last).mpr hlast⟩

/-! ### The writes of fixed extras -/

variable {bindings : Bindings} {value : Data} {xpath : String} {extra : ExtraValue} {text : String}

/-- An extra that has a text has a write. -/
theorem exists_mem_extraWrites? {owner : Option Path} {extras : List (String × ExtraValue)}
    {writes : List Write} (h : extraWrites? bindings owner value extras = some writes)
    (hmem : (xpath, extra) ∈ extras) (hrender : extra.render value = some text) :
    ∃ path, GroupIndex.extraPath? owner xpath = some path ∧
      ∃ write ∈ writes, writeAt? bindings path (textContent path text) = some write := by
  induction extras generalizing writes with
  | nil => cases hmem
  | cons head rest ih =>
    obtain ⟨key, content⟩ := head
    rw [extraWrites?] at h
    cases hcontent : content.render value with
    | none =>
      simp only [hcontent, Option.bind_eq_bind, Option.bind_some, Option.bind_eq_some_iff,
        Option.some.injEq] at h
      obtain ⟨others, hothers, rfl⟩ := h
      rcases List.mem_cons.mp hmem with heq | hmem
      · obtain ⟨rfl, rfl⟩ := Prod.mk.inj heq
        rw [hcontent] at hrender
        cases hrender
      · exact ih hothers hmem
    | some rendered =>
      simp only [hcontent, Option.bind_eq_bind, Option.bind_eq_some_iff, Option.map_eq_some_iff,
        Option.some.injEq] at h
      obtain ⟨path, hpath, _, ⟨found, hfound, rfl⟩, others, hothers, rfl⟩ := h
      rcases List.mem_cons.mp hmem with heq | hmem
      · obtain ⟨rfl, rfl⟩ := Prod.mk.inj heq
        obtain rfl : rendered = text := Option.some.inj (hcontent.symm.trans hrender)
        exact ⟨path, hpath, found, List.mem_append_left _ (List.mem_singleton.mpr rfl), hfound⟩
      · obtain ⟨target, htarget, write, hwrite, hat⟩ := ih hothers hmem
        exact ⟨target, htarget, write, List.mem_append_right _ hwrite, hat⟩

theorem exists_mem_fieldWrites? {field : Field} {content : Path → Content} {writes : List Write}
    (h : fieldWrites? bindings field.xpath field.extraEntries content value = some writes)
    (hmem : (xpath, extra) ∈ field.extraEntries) (hrender : extra.render value = some text) :
    ∃ path, GroupIndex.extraPath? field.ownPath? xpath = some path ∧
      ∃ write ∈ writes, writeAt? bindings path (textContent path text) = some write := by
  rw [Field.ownPath?]
  cases hxpath : field.xpath with
  | none =>
    rw [hxpath] at h
    exact exists_mem_extraWrites? h hmem hrender
  | some own =>
    rw [hxpath] at h
    simp only [fieldWrites?, Option.bind_eq_bind, Option.bind_eq_some_iff, Option.some.injEq] at h
    obtain ⟨owner, hread, first, -, beside, hbeside, rfl⟩ := h
    rw [Option.bind_some, hread]
    obtain ⟨path, hpath, write, hwrite, hat⟩ := exists_mem_extraWrites? hbeside hmem hrender
    exact ⟨path, hpath, write, List.mem_cons_of_mem _ hwrite, hat⟩

/-- **A fixed extra has a write** where its field writes its extras. -/
theorem exists_mem_writes? {visit : Visit} {writes : List Write} (h : visit.writes? = some writes)
    (hplaces : visit.WritesExtras) (hmem : (xpath, extra) ∈ visit.field.extraEntries)
    (hfixed : extra.IsFixed) :
    ∃ path, GroupIndex.extraPath? visit.field.ownPath? xpath = some path ∧
      ∃ write ∈ writes, ∃ text, writeAt? visit.bindings path (textContent path text) = some write := by
  obtain ⟨text, hrender⟩ := exists_render_of_isFixed hfixed
  rw [Visit.writes?] at h
  rw [Visit.WritesExtras] at hplaces
  have hfound : ∃ content value,
    fieldWrites? visit.bindings visit.field.xpath visit.field.extraEntries content value =
      some writes := by
    cases htype : visit.field.type with
    | scalar _ | choice _ =>
      rw [htype] at h hplaces
      obtain ⟨data, hdata⟩ := Option.isSome_iff_exists.mp hplaces
      simp only [hdata, Option.bind_eq_bind, Option.bind_eq_some_iff] at h
      obtain ⟨own, -, h⟩ := h
      exact ⟨_, _, h⟩
    | object =>
      rw [htype] at h hplaces
      obtain ⟨fields, hshape⟩ := Option.isSome_iff_exists.mp hplaces.1
      obtain ⟨own, hxpath⟩ := Option.isSome_iff_exists.mp hplaces.2
      simp only [hshape, hxpath, Option.isNone_some, Bool.false_eq_true, if_false] at h
      exact ⟨_, _, hxpath ▸ h⟩
    | objectArray =>
      rw [htype] at hplaces
      cases hplaces
  obtain ⟨content, value, h⟩ := hfound
  obtain ⟨path, hpath, write, hwrite, hat⟩ := exists_mem_fieldWrites? h hmem (hrender value)
  exact ⟨path, hpath, write, hwrite, text, hat⟩

/-- A write goes where its path leads. -/
theorem resolve_of_writeAt? {path : Path} {content : Content} {write : Write}
    (h : writeAt? bindings path content = some write) :
    path.resolve bindings = .ok write.address ∧ write.content = content := by
  rw [writeAt?] at h
  split at h
  · rename_i rootName rootNumber way hresolve
    obtain rfl := Option.some.inj h
    exact ⟨hresolve, rfl⟩
  all_goals cases h

/-- **Fixed extras are in the document.** At each visit of a scalar or choice that has a value, and
of an object with fields that has a path, what the path of a fixed extra designates with the numbers
that are bound there is in the document: the element, and the attribute if it is one. An object
without a path writes nothing at its visits. -/
theorem exists_at?_of_fixed (h : assemble composed options data = .ok document) {visit : Visit}
    (hvisit : visit ∈ visits composed data) :
    (visit.WritesExtras → ∀ xpath extra, (xpath, extra) ∈ visit.field.extraEntries → extra.IsFixed →
      ∃ path, GroupIndex.extraPath? visit.field.ownPath? xpath = some path ∧
        ∃ address element, path.resolve visit.bindings = .ok address ∧ document.at? address = some element ∧
          ∀ name, path.attr = some name → ∃ value, (name, value) ∈ element.attrs) ∧
    (visit.field.type = .object → visit.field.xpath = none → visit.writes? = some []) := by
  constructor
  · intro hplaces xpath extra hextra hfixed
    obtain ⟨all, hall, -⟩ := placeAll_writeList h
    have hlist := hall
    simp only [writeList, Option.bind_eq_bind, Option.bind_eq_some_iff, Option.some.injEq] at hlist
    obtain ⟨leading, -, others, hothers, rfl⟩ := hlist
    obtain ⟨own, hown⟩ := exists_writes?_of_mem hothers hvisit
    obtain ⟨path, hpath, write, hwrite, text, hat⟩ := exists_mem_writes? hown hplaces hextra hfixed
    have hmem : write ∈ leading ++ others :=
      List.mem_append_right _ ((mem_writesOf hothers write).mpr ⟨visit, hvisit, own, hown, hwrite⟩)
    obtain ⟨element, helement, hattrs⟩ := exists_at?_of_mem_writeList h hall hmem
    obtain ⟨hresolve, hcontent⟩ := resolve_of_writeAt? hat
    refine ⟨path, hpath, write.address, element, hresolve, helement, fun name hname => ?_⟩
    exact hattrs name text (by rw [hcontent, textContent, hname])
  · intro htype hxpath
    rw [Visit.writes?, htype, hxpath]
    cases visit.field.shape <;> rfl

theorem exists_at?_of_fixed_titledNotes :
    ∃ document, assemble titledNotes {} titledNotesData = .ok document ∧
      ∃ visit ∈ visits titledNotes titledNotesData, visit.WritesExtras ∧
        ("@kind", .text "remark") ∈ visit.field.extraEntries ∧
        ∃ path, GroupIndex.extraPath? visit.field.ownPath? "@kind" = some path ∧
          ∃ address element, path.resolve visit.bindings = .ok address ∧ document.at? address = some element ∧
            ∀ name, path.attr = some name → ∃ value, (name, value) ∈ element.attrs := by
  have hok : (assemble titledNotes {} titledNotesData).toOption.isSome = true := rfl
  cases h : assemble titledNotes {} titledNotesData with
  | error error =>
    rw [h] at hok
    cases hok
  | ok document =>
    let visit : Visit := {
      path := [.field "remarks", .item 0, .field "text"]
      field := ((Field.ofChoice ["c"]).placedAt "/doc/note[remarks]/text").withExtra "@kind" (.text "remark")
      value := some (.str "c")
      bindings := [("remarks", 2)] }
    have hvisit : visit ∈ visits titledNotes titledNotesData := List.mem_of_getElem? (i := 5) rfl
    have hplaces : visit.WritesExtras := rfl
    have hextra : ("@kind", .text "remark") ∈ visit.field.extraEntries := List.mem_singleton.mpr rfl
    exact ⟨document, rfl, visit, hvisit, hplaces, hextra,
      (exists_at?_of_fixed h hvisit).1 hplaces "@kind" (.text "remark") hextra trivial⟩

/-- A seller without a path, and an extra with an absolute one. -/
def markedSeller : Schema := [
  ("seller", (Field.ofObject [("name", (Field.ofChoice ["a"]).placedAt "/r/name")]).withExtra
    "/r/@kind" (.text "x"))]

/-- A seller with a name. -/
def markedSellerData : Data := .obj [("seller", .obj [("name", .str "a")])]

/-- The path of the extra composes, and yet the document does not have what it designates. -/
theorem not_at?_fixed_markedSeller :
    ∃ composed, markedSeller.compose = .ok composed ∧
      ∃ document, assemble composed {} markedSellerData = .ok document ∧
        ∃ visit ∈ visits composed markedSellerData, visit.field.type = .object ∧
          visit.field.shape.isSome = true ∧ ("/r/@kind", .text "x") ∈ visit.field.extraEntries ∧
          ∃ path, GroupIndex.extraPath? visit.field.ownPath? "/r/@kind" = some path ∧
            path.attr = some "kind" ∧
            ∃ address element, path.resolve visit.bindings = .ok address ∧
              document.at? address = some element ∧
              ¬∃ value, ("kind", value) ∈ element.attrs := by
  have hok : markedSeller.compose.toOption.any (fun composed =>
      (assemble composed {} markedSellerData).toOption.any fun document =>
        (document.at? [("r", 0)]).any fun element => element.attrs = []) = true := by decide +kernel
  cases hcompose : markedSeller.compose with
  | error error =>
    rw [hcompose] at hok
    cases hok
  | ok composed =>
    rw [hcompose] at hok
    cases hassemble : assemble composed {} markedSellerData with
    | error error =>
      simp only [Except.toOption, Option.any_some, hassemble, Option.any_none] at hok
      cases hok
    | ok document =>
      simp only [Except.toOption, Option.any_some, hassemble] at hok
      obtain ⟨element, hat, hattrs⟩ := Option.any_eq_true _ _ |>.mp hok
      let visit : Visit := {
        path := [.field "seller"]
        field :=
          (Field.ofObject [("name", (Field.ofChoice ["a"]).placedAt "/r/name")]).withExtra
            "/r/@kind" (.text "x")
        value := some (.obj [("name", .str "a")])
        bindings := [] }
      have hvisit : visit ∈ visits composed markedSellerData := by
        rw [visits, Schema.schema_of_compose hcompose]
        exact List.mem_cons_self
      refine ⟨composed, rfl, document, hassemble, visit, hvisit, rfl, rfl, List.mem_singleton.mpr rfl, ?_⟩
      refine ⟨_, rfl, rfl, [("r", 0)], element, rfl, hat, ?_⟩
      rw [of_decide_eq_true hattrs]
      rintro ⟨_, hmem⟩
      cases hmem

end Assembly

end InvoiceXml
