import InvoiceXml.Proofs.Assembly.Reading
import InvoiceXml.Proofs.Standard.Rendering

/-!
# Where writes come from

Every write in a document of a standard level is that of the guideline, or it comes from a visit and
goes where the path of the visited field leads (`Visit.Wrote`). So the names of the visit say what a
write can enter.

* **`exists_writtenBy`**: valid data has a document that its visits have written;
* `Wrote.prefix_anchor`: only a field that stands in a line or charge enters it;
* **`textsAt_tracked`**: the text of a tracked field is the only one in its place, if all that is
  written around it shares the element with it (`Shares`).
-/

namespace InvoiceXml

open Standard (Stands anchor stepsInside groupsAround tracked reserved)

theorem Step.numbered_of_none {bindings : Bindings} {step : Step} (h : step.selector = none) :
    step.numbered bindings = (step.name, 0) := by
  rw [numbered, h]

/-- A write that comes from a visit, and goes where the path of its field leads. -/
structure Visit.Wrote (visit : Visit) (path : Path) (write : Write) : Prop where
  type : visit.field.type ≠ .objectArray
  scope : visit.bindings.map (·.1) = (groupsAround visit.path.names).reverse
  stands : Stands visit.path.names path
  address : write.address = path.steps.map (Step.numbered visit.bindings)
  text : ∀ text, write.content.text? = some text → visit.text? = some text

theorem Entry.IsStandard.exists_wrote {entry : Entry} {visit : Visit} (hentry : entry.IsStandard)
    (hof : visit.Of entry) {writes : List Write} {write : Write} (h : visit.writes? = some writes)
    (hmem : write ∈ writes) : ∃ path, visit.field.ownPath? = some path ∧ visit.Wrote path write := by
  obtain ⟨path, hpath, hstands, haddress, htext⟩ := hentry.mem_writes? hof h hmem
  refine ⟨path, hpath, ?_, ?_, ?_, haddress, htext⟩
  · intro htype
    rw [Visit.writes?, htype] at h
    obtain rfl := Option.some.inj h
    cases hmem
  · rw [hof.scope, hof.names, hentry.scope]
  · rw [hof.names]
    exact hstands

namespace Visit.Wrote

variable {visit : Visit} {path : Path} {write : Write}

/-- A write goes to the element in which its field stands, and further inside it. -/
theorem address_eq (h : visit.Wrote path write) :
    write.address = (anchor visit.path.names).map (Step.numbered visit.bindings) ++
      (stepsInside visit.path.names path).map (Step.numbered visit.bindings) := by
  rw [h.address, ← List.map_append, ← h.stands.anchored]

/-- A line or charge is entered only by writes of fields that stand in it. -/
theorem prefix_anchor (h : visit.Wrote path write) {outer : List (String × Nat)} {name : String}
    {number : Nat} (hname : name = Standard.chargeName ∨ name = Standard.lineName)
    (hunder : outer ++ [(name, number)] <+: write.address) :
    outer ++ [(name, number)] <+: (anchor visit.path.names).map (Step.numbered visit.bindings) := by
  rw [h.address_eq] at hunder
  rcases Nat.lt_or_ge outer.length (anchor visit.path.names).length with hlt | hge
  · refine List.prefix_of_prefix_length_le hunder (List.prefix_append _ _) ?_
    rw [List.length_append, List.length_singleton, List.length_map]
    omega
  · -- otherwise the step is one inside the anchor
    exfalso
    have hanchor : (anchor visit.path.names).map (Step.numbered visit.bindings) <+: outer := by
      refine List.prefix_of_prefix_length_le (List.prefix_append _ _)
        ((List.prefix_append _ _).trans hunder) ?_
      rw [List.length_map]
      exact hge
    obtain ⟨middle, rfl⟩ := hanchor
    rw [List.append_assoc, List.prefix_append_right_inj] at hunder
    have hmem : (name, number) ∈ (stepsInside visit.path.names path).map (Step.numbered visit.bindings) :=
      hunder.subset (List.mem_append_right _ (List.mem_singleton_self _))
    obtain ⟨step, hstep, heq⟩ := List.mem_map.mp hmem
    have hstepName : step.name = name := congrArg Prod.fst heq
    obtain ⟨hcharge, hline⟩ := h.stands.enters step hstep
    rcases hname with rfl | rfl
    · exact hcharge hstepName
    · exact hline hstepName

/-- Inside a line or charge nothing repeats. -/
theorem inside_eq (h : visit.Wrote path write) (hdeep : (anchor visit.path.names).length ≠ 1) :
    (stepsInside visit.path.names path).map (Step.numbered visit.bindings) =
      ((stepsInside visit.path.names path).map Step.name).map (·, 0) := by
  rw [List.map_map]
  refine List.map_congr_left fun step hstep => ?_
  exact Step.numbered_of_none (h.stands.single hdeep step hstep)

end Visit.Wrote

/-! ### Documents and the visits that wrote them -/

open Assembly (visits writesOf mem_writesOf exists_writes?_of_mem assemble exists_reads)

/-- Whether a document reads as writes that are the guideline and those of the visits of data. -/
structure Document.WrittenBy (document : Document) (composed : ComposedSchema) (data : Data)
    (writes : List Write) :
    Prop where
  reads : document.Reads writes
  kind : ∀ visit ∈ visits composed data, visit.field.KindAt visit.path.names
  origin : ∀ write ∈ writes, write.address = Level.guidelineAddress ∨
    ∃ visit ∈ visits composed data, ∃ path, visit.Wrote path write
  /-- The text of a visit is written at the path of its field. -/
  written : ∀ visit ∈ visits composed data, visit.field.type.isObjectLike = false → ∀ path text,
    visit.field.ownPath? = some path → visit.text? = some text →
      ∃ write ∈ writes, visit.Wrote path write ∧ (path.attr = none → write.content.text? = some text)

namespace Level

variable {level : Level} {composed : ComposedSchema} {input normal : Data}

/-- A scalar with a text writes it at the path of its field. -/
theorem exists_write_of_text {entry : Entry} {visit : Visit} (hentry : entry.IsStandard)
    (hof : visit.Of entry) {writes : List Write} (h : visit.writes? = some writes)
    (hscalar : visit.field.type.isObjectLike = false) {path : Path} {text : String}
    (hpath : visit.field.ownPath? = some path) (htext : visit.text? = some text) :
    ∃ write ∈ writes, visit.Wrote path write ∧ (path.attr = none → write.content.text? = some text) := by
  have hfield : Assembly.fieldWrites? visit.bindings visit.field.xpath visit.field.extraEntries
      (Assembly.textContent · text) ((Assembly.resolveValue visit.field.transform visit.field.fallback
        visit.value).getD .null) = some writes := by
    obtain ⟨data, hresolve, hdata⟩ := Option.bind_eq_some_iff.mp htext
    rw [Visit.writes?] at h
    cases htype : visit.field.type with
    | scalar _ | choice _ =>
      rw [htype] at h
      simpa [hresolve, hdata] using h
    | object | objectArray =>
      rw [htype] at hscalar
      cases hscalar
  obtain ⟨write, hmem, hwrite⟩ := Assembly.exists_own_mem_fieldWrites? hfield hpath
  obtain ⟨found, hfound, hwrote⟩ := hentry.exists_wrote hof h hmem
  obtain rfl := Option.some.inj (hpath.symm.trans hfound)
  refine ⟨write, hmem, hwrote, fun hattr => ?_⟩
  rw [(Assembly.writeAt?_eq_some hwrite).2, Assembly.textContent, hattr]
  rfl

/-- **Valid data has a document that its visits have written.** -/
theorem exists_writtenBy (hcompose : level.profile.compose = .ok composed)
    (hvalid : composed.schema.validate input = .ok normal) (time : Option Instant) :
    ∃ document writes, assemble composed (Renderer.assemblyOptions level.profile time) normal = .ok document ∧
      document.WrittenBy composed normal writes := by
  obtain ⟨document, hdocument⟩ := exists_document hcompose hvalid time
  obtain ⟨guideline, others, hlist, hguideline, -, hothers, -⟩ := exists_writeList hcompose hvalid
  obtain ⟨writes, hwrites, hreads⟩ := exists_reads hdocument
  obtain rfl := Option.some.inj (hlist.symm.trans hwrites)
  refine ⟨document, _, hdocument, hreads, ?_, ?_, ?_⟩
  · intro visit hvisit
    obtain ⟨entry, hentry, hof⟩ := isStandard_of_mem_visits hcompose hvisit
    rw [hof.field, hof.names]
    exact hentry.kind
  · intro write hwrite
    rcases List.mem_cons.mp hwrite with rfl | hwrite
    · exact .inl hguideline
    · obtain ⟨visit, hvisit, own, hown, hmem⟩ := (mem_writesOf hothers write).mp hwrite
      obtain ⟨entry, hentry, hof⟩ := isStandard_of_mem_visits hcompose hvisit
      obtain ⟨path, -, hwrote⟩ := hentry.exists_wrote hof hown hmem
      exact .inr ⟨visit, hvisit, path, hwrote⟩
  · intro visit hvisit hscalar path text hpath htext
    obtain ⟨entry, hentry, hof⟩ := isStandard_of_mem_visits hcompose hvisit
    obtain ⟨own, hown⟩ := exists_writes?_of_mem hothers hvisit
    obtain ⟨write, hmem, h⟩ := exists_write_of_text hentry hof hown hscalar hpath htext
    exact ⟨write,
      List.mem_cons_of_mem _ ((mem_writesOf hothers write).mpr ⟨visit, hvisit, own, hown, hmem⟩), h⟩

end Level

/-! ### Reading what is tracked -/

/-- Two ways that start at one address and lead to one target start with the same name. -/
theorem name_prefix_of_same_target {address target way : List (String × Nat)} {name : String} {number : Nat}
    (hstep : address ++ [(name, number)] <+: target) (hway : address ++ way <+: target) (hne : way ≠ []) :
    [name] <+: way.map Prod.fst := by
  have hlength : (address ++ [(name, number)]).length ≤ (address ++ way).length := by
    have hpos : 0 < way.length := List.length_pos_of_ne_nil hne
    rw [List.length_append, List.length_append, List.length_singleton]
    omega
  have hsame : address ++ [(name, number)] <+: address ++ way :=
    List.prefix_of_prefix_length_le hstep hway hlength
  rw [List.prefix_append_right_inj] at hsame
  exact hsame.map Prod.fst

namespace Standard

/-- Where all lines and charges stand. -/
def transactionAddress : List (String × Nat) := [(invoiceStep.name, 0), (transactionStep.name, 0)]

/-- What is tracked stands where no other field enters. -/
theorem exists_reserved_prefix {names place : List String} (h : tracked names = some place) :
    ∃ outer ∈ reserved, outer <+: place := by
  unfold tracked at h
  split at h
  · obtain rfl := Option.some.inj h
    exact ⟨["ram:ChargeIndicator"], by decide, by decide⟩
  · obtain rfl := Option.some.inj h
    exact ⟨amountPlace, by decide, List.prefix_rfl⟩
  · obtain rfl := Option.some.inj h
    exact ⟨lineIdPlace, by decide, List.prefix_rfl⟩
  · cases h

/-- What stands in an element of the transaction stands below the root. -/
theorem length_anchor_ne_one {names : List String} {bindings : Bindings}
    {address : List (String × Nat)} (hinner : transactionAddress <+: address)
    (hanchor : (anchor names).map (Step.numbered bindings) = address) :
    (anchor names).length ≠ 1 := by
  have hlength := hinner.length_le
  rw [← hanchor, List.length_map] at hlength
  have htwo : transactionAddress.length = 2 := rfl
  omega

end Standard

open Standard (transactionAddress length_anchor_ne_one)

namespace Document.WrittenBy

variable {document : Document} {composed : ComposedSchema} {data : Data} {writes : List Write}

/-- What is written in the transaction comes from a visit. -/
theorem exists_wrote (h : document.WrittenBy composed data writes) {write : Write} (hwrite : write ∈ writes)
    (hunder : transactionAddress <+: write.address) :
    ∃ visit ∈ visits composed data, ∃ path, visit.Wrote path write := by
  rcases h.origin write hwrite with hguideline | hvisit
  · rw [hguideline] at hunder
    exact absurd hunder (by decide)
  · exact hvisit

/-- Whether a visit that writes in an element is of a field that stands in it, or keeps away from a
place there. -/
def Shares (visit other : Visit) (write : Write) (address : List (String × Nat))
    (place : List String) : Prop :=
  ((anchor other.path.names).map (Step.numbered other.bindings) = address ∧
    (tracked other.path.names = some place → other = visit)) ∨
  ∃ name number, address ++ [(name, number)] <+: write.address ∧ ¬[name] <+: place

/-- Inside a line or charge, on the way to a place, nothing repeats. -/
theorem number_eq_zero_of_shares {visit other : Visit} {path : Path} {write : Write}
    (hwrote : other.Wrote path write) {address outer : List (String × Nat)} {place : List String}
    (hinner : transactionAddress <+: address) (hshares : Shares visit other write address place)
    {name : String} {number : Nat}
    (hunder : address ++ (outer ++ [(name, number)]) <+: write.address)
    (hway : outer.map (·.1) ++ [name] <+: place) :
    number = 0 := by
  rcases hshares with ⟨hanchor, -⟩ | ⟨first, further, hfirst, haway⟩
  · rw [hwrote.address_eq, hwrote.inside_eq (length_anchor_ne_one hinner hanchor), hanchor,
      List.prefix_append_right_inj] at hunder
    have hmem := hunder.subset (List.mem_append_right _ (List.mem_singleton_self _))
    obtain ⟨step, -, hstep⟩ := List.mem_map.mp hmem
    exact (congrArg Prod.snd hstep).symm
  · have hnames := name_prefix_of_same_target hfirst hunder (by simp)
    rw [List.map_append] at hnames
    exact absurd (hnames.trans hway) haway

/-- Of all that is written in the place of a tracked field, its own text is the only one. -/
theorem text?_of_shares {visit other : Visit} {path : Path} {write : Write}
    (hwrote : other.Wrote path write) {address : List (String × Nat)} {place : List String}
    (hinner : transactionAddress <+: address) (hshares : Shares visit other write address place)
    (hplace : tracked visit.path.names = some place)
    (hsame : write.address = address ++ place.map (·, 0)) {text : String}
    (htext : write.content.text? = some text) :
    visit.text? = some text := by
  have hmap : (place.map fun name => (name, 0)).map Prod.fst = place := by
    rw [List.map_map]
    exact List.map_id' place
  rcases hshares with ⟨hanchor, honly⟩ | ⟨first, further, hfirst, haway⟩
  · rw [hwrote.address_eq, hwrote.inside_eq (length_anchor_ne_one hinner hanchor), hanchor] at hsame
    have hsteps : (stepsInside other.path.names path).map Step.name = place := by
      have hnames := congrArg (List.map Prod.fst) (List.append_cancel_left hsame)
      rw [hmap, List.map_map] at hnames
      exact (List.map_id' _).symm.trans hnames
    cases htracked : tracked other.path.names with
    | none =>
      obtain ⟨outer, houter, hreserved⟩ := Standard.exists_reserved_prefix hplace
      exact absurd (hsteps ▸ hreserved) (hwrote.stands.untracked htracked outer houter)
    | some otherPlace =>
      obtain rfl : otherPlace = place := (hwrote.stands.tracked otherPlace htracked).2.symm.trans hsteps
      obtain rfl := honly htracked
      exact hwrote.text text htext
  · obtain ⟨outer, houter, hreserved⟩ := Standard.exists_reserved_prefix hplace
    have hne : (place.map fun name => (name, 0)) ≠ [] := by
      intro hnil
      obtain rfl : place = [] := List.map_eq_nil_iff.mp hnil
      rw [List.prefix_nil.mp hreserved] at houter
      exact absurd houter (by decide)
    have hnames := name_prefix_of_same_target hfirst (hsame ▸ List.prefix_rfl) hne
    rw [hmap] at hnames
    exact absurd hnames haway

/-- **The text of a tracked field is the only one in its place**, if every other visit that writes
in the same line or charge stands in it as well, or keeps away from the place. -/
theorem textsAt_tracked (h : document.WrittenBy composed data writes) {visit : Visit}
    (hvisit : visit ∈ visits composed data) (hscalar : visit.field.type.isObjectLike = false) {path : Path}
    (hpath : visit.field.ownPath? = some path) {text : String} (htext : visit.text? = some text)
    {place : List String} (hplace : tracked visit.path.names = some place) {address : List (String × Nat)}
    (haddress : (anchor visit.path.names).map (Step.numbered visit.bindings) = address)
    (hinner : transactionAddress <+: address) {element : Element} (hat : document.at? address = some element)
    (hshares : ∀ other ∈ visits composed data, ∀ path write, other.Wrote path write →
      address <+: write.address →
      Shares visit other write address place) :
    element.textsAt place = [some text] := by
  refine h.reads.textsAt_eq_singleton hat ?_ ?_ ?_
  · obtain ⟨write, hwrite, hwrote, hcontent⟩ := h.written visit hvisit hscalar path text hpath htext
    obtain ⟨hattr, hsteps⟩ := hwrote.stands.tracked place hplace
    refine ⟨write, hwrite, ?_, hcontent hattr⟩
    rw [hwrote.address_eq, hwrote.inside_eq (length_anchor_ne_one hinner haddress), haddress, hsteps]
  · intro write hwrite outer name number hunder hway
    rw [List.append_assoc] at hunder
    have hin : address <+: write.address := (List.prefix_append _ _).trans hunder
    obtain ⟨other, hother, path, hwrote⟩ := h.exists_wrote hwrite (hinner.trans hin)
    exact number_eq_zero_of_shares hwrote hinner (hshares other hother path write hwrote hin) hunder hway
  · intro write hwrite hsame found hfound
    have hin : address <+: write.address := hsame ▸ List.prefix_append _ _
    obtain ⟨other, hother, path, hwrote⟩ := h.exists_wrote hwrite (hinner.trans hin)
    have hown :=
      text?_of_shares hwrote hinner (hshares other hother path write hwrote hin) hplace hsame hfound
    exact Option.some.inj (hown.symm.trans htext)

end Document.WrittenBy

end InvoiceXml
