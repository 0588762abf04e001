import InvoiceXml.Proofs.Standard.Invoice
import InvoiceXml.Proofs.Xml.Assembly
import InvoiceXml.Proofs.Xml.Data

/-!
# Well-formed markup

What the standard levels declare has only ASCII characters in it: the paths of the fields and of
what is written beside them, the texts there, and the values that fields fall back on
(`Field.IsAscii`). So all names in a document are names in the sense of XML, and what is written
that is not in the data has allowed characters.

The texts in the data are written as they are, and validation does not look at their characters one
by one.

* `Visit.isNamed_of_mem_writes?`, `Visit.isPlain_of_mem_writes?`: what a visit writes is named, and
  it has allowed characters if the value has;
* **`render_isDocument`**: what is rendered from valid data is a document, and it is well-formed if
  the texts in the data have allowed characters;
* `mem_render_of_line`: the characters of the ids of lines stand in what is rendered;
* `not_wellFormed_render`: it need not be well-formed if they are not allowed.
-/

namespace InvoiceXml

open Xml (IsName IsText)

/-- Whether a text has ASCII characters only, all of them allowed. -/
def Xml.isAsciiText (text : String) : Bool := Text.isAscii text && (Text.asciiChars text).all isChar

theorem Xml.isText_of_isAsciiText {text : String} (h : isAsciiText text = true) (others : Char → Prop) :
    IsText others text := by
  rw [isAsciiText, Bool.and_eq_true] at h
  intro c hc
  rw [← Text.asciiChars_eq h.1] at hc
  exact .inl (List.all_eq_true.mp h.2 c hc)

/-! ### What the standard fields declare -/

/-- Whether all that a field declares for the document has ASCII characters only. -/
structure Field.IsAscii (_names : List String) (field : Field) : Prop where
  own : ∀ xpath, field.xpath = some xpath → Text.isAscii xpath = true
  extras : ∀ extra ∈ field.extraEntries, Text.isAscii extra.1 = true ∧
    ∀ others value text, extra.2.render value = some text → IsText others text
  fallback : ∀ data, field.fallback = some data → ∀ others, ∀ text ∈ data.texts, IsText others text

/-- Whether the text of an extra is fixed, and has ASCII characters only. -/
def ExtraValue.isAscii : ExtraValue → Bool
  | text content => Xml.isAsciiText content
  | flag _ => true
  | derived _ => false

theorem ExtraValue.isText_of_isAscii {extra : ExtraValue} (h : extra.isAscii = true) (others : Char → Prop)
    {value : Data} {text : String} (hrender : extra.render value = some text) : IsText others text := by
  cases extra with
  | text content =>
    obtain rfl := Option.some.inj hrender
    exact Xml.isText_of_isAsciiText h others
  | flag b =>
    obtain rfl := Option.some.inj hrender
    exact Assembly.isText_flagText others b
  | derived _ => cases h

/-- Whether all that a field declares for the document is fixed, and has ASCII characters only. -/
def Field.isAscii (field : Field) : Bool :=
  field.xpath.all Text.isAscii && field.extraEntries.all (fun extra =>
    Text.isAscii extra.1 && extra.2.isAscii) &&
    field.fallback.all fun data => data.texts.all Xml.isAsciiText

theorem Field.of_isAscii {field : Field} (h : field.isAscii = true) (names : List String) :
    field.IsAscii names := by
  rw [isAscii, Bool.and_eq_true, Bool.and_eq_true] at h
  obtain ⟨⟨hown, hextras⟩, hfallback⟩ := h
  refine ⟨?_, ?_, ?_⟩
  · intro xpath hxpath
    rwa [hxpath] at hown
  · intro extra hextra
    have hextra := List.all_eq_true.mp hextras extra hextra
    rw [Bool.and_eq_true] at hextra
    exact ⟨hextra.1, fun others value text => ExtraValue.isText_of_isAscii hextra.2 others⟩
  · intro data hdata others text htext
    rw [hdata] at hfallback
    exact Xml.isText_of_isAsciiText (List.all_eq_true.mp hfallback text htext) others

theorem Schema.keptByOverride_isAscii : KeptByOverride Field.IsAscii := by
  intro names base layer shape hbase hlayer
  refine ⟨?_, ?_, ?_⟩
  · intro xpath hxpath
    rcases Option.or_eq_some_iff.mp hxpath with h | ⟨-, h⟩
    · exact hlayer.own xpath h
    · exact hbase.own xpath h
  · intro extra hmem
    change extra ∈ (layer.extras.or base.extras).getD [] at hmem
    cases hextras : layer.extras with
    | some extras =>
      rw [hextras] at hmem
      exact hlayer.extras extra (by rw [Field.extraEntries, hextras]; exact hmem)
    | none =>
      rw [hextras] at hmem
      exact hbase.extras extra hmem
  · intro data hdata
    rcases Option.or_eq_some_iff.mp hdata with h | ⟨-, h⟩
    · exact hlayer.fallback data h
    · exact hbase.fallback data h

namespace Level

theorem isAscii_ownSchema (level : Level) :
    level.ownSchema.entries.all (fun entry => entry.field.isAscii) = true := by
  cases level <;> decide +kernel

/-- All that the standard fields declare has ASCII characters only. -/
theorem fieldsHold_isAscii (level : Level) : Schema.FieldsHold Field.IsAscii [] level.profile.mergedSchema :=
  fieldsHold_of_all Schema.keptByOverride_isAscii (fun names _ h =>
    Field.of_isAscii h names) isAscii_ownSchema level

theorem root_profile (level : Level) : level.profile.info.root = Standard.documentRoot := by
  cases level <;> rfl

/-- The root of the standard documents is named. -/
theorem isNamed_newRoot (level : Level) :
    (Assembly.newRoot level.profile.info.root.namespaces "rsm:CrossIndustryInvoice").IsNamed := by
  rw [root_profile]
  have hnamespaces : ∀ entry ∈ Standard.documentRoot.namespaces,
      IsName (Assembly.namespaceName entry.1).toList := by
    decide +kernel
  exact Assembly.isNamed_newRoot (by decide +kernel) hnamespaces

/-- The root of the standard documents has allowed characters. -/
theorem isPlain_newRoot (level : Level) (others : Char → Prop) :
    (Assembly.newRoot level.profile.info.root.namespaces "rsm:CrossIndustryInvoice").IsPlain others := by
  rw [root_profile]
  have hnamespaces : ∀ entry ∈ Standard.documentRoot.namespaces, Xml.isAsciiText entry.2 =
    true := by decide +kernel
  exact Assembly.isPlain_newRoot fun entry hentry =>
    Xml.isText_of_isAsciiText (hnamespaces entry hentry) others

theorem isText_contextParameter (level : Level) (others : Char → Prop) :
    IsText others level.contextParameter := by
  refine Xml.isText_of_isAsciiText ?_ others
  cases level <;> decide +kernel

end Level

/-! ### What is written -/

namespace Visit

open Assembly
  (isNamed_of_writeAt? isNamed_textContent isPlain_textContent writeAt?_eq_some resolveValue scalarText)

variable {visit : Visit} {writes : List Write} {write : Write} {names : List String}

theorem isNamed_ownPath? (hfield : visit.field.IsAscii names) {path : Path}
    (hpath : visit.field.ownPath? = some path) :
    path.IsNamed := by
  obtain ⟨xpath, hxpath, hread⟩ := Option.bind_eq_some_iff.mp hpath
  cases hresult : Path.read xpath with
  | error fault =>
    rw [hresult] at hread
    cases hread
  | ok found =>
    rw [hresult] at hread
    obtain rfl := Option.some.inj hread
    exact Path.isNamed_of_read hresult (hfield.own xpath hxpath)

/-- What is written at a visit is named. -/
theorem isNamed_of_mem_writes? (hfield : visit.field.IsAscii names) (h : visit.writes? = some writes)
    (hmem : write ∈ writes) : write.IsNamed := by
  rcases mem_writes? h hmem with ⟨path, content, hpath, hwrite, hcontent⟩ |
    ⟨extra, hextra, path, text, hpath, -, hwrite⟩
  · have hnamed := isNamed_ownPath? hfield hpath
    refine isNamed_of_writeAt? hwrite hnamed ?_
    rcases hcontent with rfl | ⟨text, -, rfl⟩
    · trivial
    · exact isNamed_textContent hnamed text
  · have hnamed :=
      Path.isNamed_of_extraPath? hpath (fun own => isNamed_ownPath? hfield) (hfield.extras extra hextra).1
    exact isNamed_of_writeAt? hwrite hnamed (isNamed_textContent hnamed text)

/-- What is written at a visit has allowed characters if the value has. -/
theorem isPlain_of_mem_writes? {others : Char → Prop} (hfield : visit.field.IsAscii names)
    (htransform : visit.field.transform = none)
    (hvalue : ∀ value, visit.value = some value → ∀ text ∈ value.texts, IsText others text)
    (h : visit.writes? = some writes) (hmem : write ∈ writes) : write.content.IsPlain others := by
  rcases mem_writes? h hmem with ⟨path, content, -, hwrite, hcontent⟩ |
    ⟨extra, hextra, path, text, -, ⟨value, hrender⟩, hwrite⟩
  · obtain ⟨-, rfl⟩ := writeAt?_eq_some hwrite
    rcases hcontent with htouch | ⟨text, htext, hcontent⟩
    · rw [htouch]
      trivial
    · rw [hcontent]
      refine isPlain_textContent ?_ path
      obtain ⟨data, hresolve, htext⟩ := Option.bind_eq_some_iff.mp htext
      refine Assembly.isText_of_scalarText htext ?_
      rw [htransform] at hresolve
      obtain ⟨hchosen, -⟩ := Option.filter_eq_some_iff.mp hresolve
      have hchosen : visit.value.or visit.field.fallback = some data := by
        cases hvisit : visit.value <;> simpa [hvisit] using hchosen
      rcases Option.or_eq_some_iff.mp hchosen with hdata | ⟨-, hdata⟩
      · exact hvalue data hdata
      · exact hfield.fallback data hdata others
  · obtain ⟨-, hcontent⟩ := writeAt?_eq_some hwrite
    rw [hcontent]
    exact isPlain_textContent ((hfield.extras extra hextra).2 others value text hrender) path

end Visit

namespace Level

open Assembly (visits writesOf mem_writesOf writeList assemble)

variable {level : Level} {composed : ComposedSchema} {input normal : Data} {others : List Write}

theorem isAscii_of_mem_visits (hcompose : level.profile.compose = .ok composed) {data : Data} {visit : Visit}
    (hvisit : visit ∈ visits composed data) : visit.field.IsAscii visit.path.names := by
  obtain ⟨entry, hentry, hof⟩ := Assembly.of_entry_of_mem_visits hvisit
  rw [Schema.schema_of_compose hcompose] at hentry
  rw [hof.field, hof.names]
  exact (Schema.fieldsHold_iff [] [] _).mp (fieldsHold_isAscii level) entry hentry

/-- What the visits write is named. -/
theorem isNamed_of_mem_writesOf (hcompose : level.profile.compose = .ok composed)
    (hothers : writesOf (visits composed normal) = some others) {write : Write} (hwrite : write ∈ others) :
    write.IsNamed := by
  obtain ⟨visit, hvisit, own, hown, hmem⟩ := (mem_writesOf hothers write).mp hwrite
  exact visit.isNamed_of_mem_writes? (isAscii_of_mem_visits hcompose hvisit) hown hmem

/-- What the visits write has allowed characters and those of the texts in the data. -/
theorem isPlain_of_mem_writesOf (hcompose : level.profile.compose = .ok composed)
    (hothers : writesOf (visits composed normal) = some others) {write : Write} (hwrite : write ∈ others) :
    write.content.IsPlain fun c => ∃ value ∈ normal.texts, c ∈ value.toList := by
  obtain ⟨visit, hvisit, own, hown, hmem⟩ := (mem_writesOf hothers write).mp hwrite
  obtain ⟨entry, hentry, hof⟩ := isStandard_of_mem_visits hcompose hvisit
  refine visit.isPlain_of_mem_writes? (isAscii_of_mem_visits hcompose hvisit) ?_ ?_ hown hmem
  · rw [hof.field]
    exact hentry.kind.plain.transform
  · intro value hvalue text htext c hc
    have htexts := Assembly.texts_subset_of_mem_visitsOfFields composed.schema hvisit hvalue
    exact .inr ⟨text, htexts htext, hc⟩

/-- The document of valid data is named everywhere, and has allowed characters and those of the
texts in the data. -/
theorem exists_plain_document (hcompose : level.profile.compose = .ok composed)
    (hvalid : composed.schema.validate input = .ok normal) (time : Option Instant) :
    ∃ document, assemble composed (Renderer.assemblyOptions level.profile time) normal = .ok document ∧
      document.root.Everywhere Element.IsNamed ∧
      document.root.Everywhere (Element.IsPlain fun c => ∃ value ∈ normal.texts, c ∈ value.toList) := by
  obtain ⟨document, hdocument⟩ := exists_document hcompose hvalid time
  obtain ⟨guideline, others, hlist, haddress, hcontent, hothers, hstarts⟩ := exists_writeList hcompose hvalid
  have hname : document.root.name = "rsm:CrossIndustryInvoice" := by
    obtain ⟨writes, hwrites, hplace⟩ := Assembly.placeAll_writeList hdocument
    obtain rfl := Option.some.inj (hlist.symm.trans hwrites)
    have hroot := (Assembly.placeAll_eq_ok hplace).2 guideline List.mem_cons_self
    exact hroot.1.symm.trans (hstarts guideline List.mem_cons_self).1
  refine ⟨document, hdocument, ?_, ?_⟩
  · refine Assembly.everywhere_isNamed_of_assemble hdocument hlist (hname ▸ isNamed_newRoot level) ?_
    rw [List.forall_mem_cons]
    refine ⟨⟨?_, ?_⟩, fun write => isNamed_of_mem_writesOf hcompose hothers⟩
    · rw [haddress]
      decide +kernel
    · rw [hcontent]
      trivial
  · refine Assembly.everywhere_isPlain_of_assemble hdocument hlist (hname ▸ isPlain_newRoot level _) ?_
    rw [List.forall_mem_cons]
    refine ⟨?_, fun write => isPlain_of_mem_writesOf hcompose hothers⟩
    rw [hcontent]
    exact isText_contextParameter level _

/-- **What is rendered is a document.** It has one root; its tags nest and match; no element has two
attributes of one name; and the characters with a meaning in markup are escaped in texts and
attribute values. All of its characters are allowed but those that stand in a text of the valid
data, so it is well-formed if those are allowed as well. -/
theorem render_isDocument {markup : MarkupOptions} {renderer : Renderer}
    (hcreate : Renderer.create level.profile markup = .ok renderer)
    (hvalid : renderer.validate input = .ok normal) (time : Option Instant) :
    ∃ text, renderer.render time input = .ok text ∧ Xml.IsDocument text.toList ∧
      (∀ c ∈ text.toList, Xml.isChar c = true ∨ ∃ value ∈ normal.texts, c ∈ value.toList) ∧
      ((∀ value ∈ normal.texts, ∀ c ∈ value.toList, Xml.isChar c = true) → Xml.WellFormed text) := by
  obtain ⟨composed, hcompose, rfl⟩ := Renderer.of_create hcreate
  obtain ⟨document, hdocument, hnamed, hplain⟩ :=
    exists_plain_document hcompose (Renderer.of_validate hvalid) time
  have hrender := Renderer.render_eq_ok hvalid hdocument
  have htext := Element.isText_source hnamed hplain markup
  have hdocument := Element.isDocument_source hnamed markup
  refine ⟨_, hrender, hdocument, htext, fun hallowed => ⟨hdocument, fun c hc => ?_⟩⟩
  rcases htext c hc with h | ⟨value, hvalue, hc⟩
  · exact h
  · exact hallowed value hvalue c hc

theorem render_isDocument_reducedInvoice :
    ∃ renderer normal, Renderer.create basic.profile {} = .ok renderer ∧
      renderer.validate reducedInvoice = .ok normal ∧
        (∀ value ∈ normal.texts, ∀ c ∈ value.toList, Xml.isChar c = true) ∧
        ∃ text, renderer.render none reducedInvoice = .ok text ∧ Xml.IsDocument text.toList ∧
          (∀ c ∈ text.toList, Xml.isChar c = true ∨ ∃ value ∈ normal.texts, c ∈ value.toList) ∧
          Xml.WellFormed text := by
  obtain ⟨composed, hcompose⟩ := exists_compose basic
  have hok : (basic.profile.mergedSchema.validate reducedInvoice).toOption.any
      (fun normal => normal.texts.all Xml.isAsciiText) = true := by decide +kernel
  cases hnormal : basic.profile.mergedSchema.validate reducedInvoice with
  | error error =>
    rw [hnormal] at hok
    cases hok
  | ok normal =>
    rw [hnormal] at hok
    have hcreate := Renderer.create_of_compose hcompose {}
    have hvalid : Renderer.validate ⟨basic.profile, composed, {}⟩ reducedInvoice = .ok normal := by
      rw [Renderer.validate, Schema.schema_of_compose hcompose, hnormal]
    have hallowed : ∀ value ∈ normal.texts, ∀ c ∈ value.toList, Xml.isChar c = true := by
      intro value hvalue c hc
      have hascii := List.all_eq_true.mp hok value hvalue
      exact (Xml.isText_of_isAsciiText hascii (fun _ => False) c hc).resolve_right not_false
    obtain ⟨text, hrender, hdocument, hchars, hwellFormed⟩ := render_isDocument hcreate hvalid none
    exact ⟨_, normal, hcreate, hvalid, hallowed, text, hrender, hdocument, hchars, hwellFormed hallowed⟩

/-! ### Characters that are not allowed -/

/-- The characters of the ids of lines stand in what is rendered, but those with a meaning in markup. -/
theorem mem_render_of_line {markup : MarkupOptions} {renderer : Renderer}
    (hcreate : Renderer.create level.profile markup = .ok renderer) (hlevel : level ≠ minimum)
    (hlines : level ≠ basicWithoutLines) (hvalid : renderer.validate input = .ok normal)
    {time : Option Instant} {text : String} (hrender : renderer.render time input = .ok text)
    {line : Data} (hline : line ∈ Assembly.itemsOf (input.present? "lines")) {id : String}
    (hid : line.present? "id" = some (.str id)) {c : Char} (hc : c ∈ id.toList)
    (hmark : c ∉ Markup.marks) : c ∈ text.toList := by
  obtain ⟨composed, hcompose, rfl⟩ := Renderer.of_create hcreate
  have hnormal := Renderer.of_validate hvalid
  obtain ⟨document, writes, hdocument, hwritten⟩ := exists_writtenBy hcompose hnormal time
  obtain ⟨settlement, -⟩ := exists_invoiceSettlement hcompose hlevel hnormal
  obtain ⟨transaction, -, htransaction, hat, -⟩ :=
    hwritten.exists_settlement (settlement.exists_write hwritten)
  obtain ⟨lines, hitems⟩ := exists_invoiceLines hcompose hlevel hlines hnormal
  -- the text of the id is reached through the transaction and the element of the line
  have hreached : some id ∈ document.root.textsAt
      (Standard.transactionStep.name :: Standard.lineName :: Standard.lineIdPlace) := by
    obtain ⟨number, hnumber⟩ := List.getElem?_of_mem (hitems ▸ hline)
    obtain ⟨element, helement, ⟨found, hfound, htexts⟩, -⟩ :=
      exists_of_forall₂_getElem? (lines.showsLines hwritten hat).flip hnumber
    obtain rfl : id = found := by simpa [hid] using hfound
    rw [Element.textsAt, htransaction, List.flatMap_singleton, Element.textsAt, List.mem_flatMap]
    exact ⟨element, List.mem_of_getElem? helement, by rw [htexts]; exact List.mem_singleton_self _⟩
  obtain ⟨address, found, hfound, htext⟩ := Element.exists_along?_of_mem_textsAt hreached
  have hsource := Renderer.render_eq_ok hvalid hdocument
  obtain rfl := Except.ok.inj (hsource.symm.trans hrender)
  exact Element.mem_source_of_text hfound htext hc hmark markup

/-- An invoice of one line, whose id is a control character. -/
def controlInvoice : Data :=
  .obj [
    ("document", .obj [("number", .str "R-1"), ("typeCode", .str "380"), ("issueDate", .str "2024-03-15")]),
    ("lines", .arr [.obj [
      ("id", .str "\x01"), ("name", .str "Desk"), ("netPrice", .str "100"), ("quantity", .str "1"),
      ("unitCode", .str "C62"), ("taxCategory", .str "S"), ("lineTotal", .str "100")]]),
    ("agreement", .obj [
      ("seller", .obj [("name", .str "Seller"), ("countryCode", .str "DE")]),
      ("buyer", .obj [("name", .str "Buyer"), ("countryCode", .str "FR")])]),
    ("settlement", .obj [
      ("currency", .str "EUR"),
      ("totals", .obj [("taxBasisTotal", .str "100"), ("grandTotal", .str "100"),
        ("duePayable", .str "100")])])]

/-- What is rendered from valid data need not be well-formed. -/
theorem not_wellFormed_render :
    ¬ ∀ (level : Level) (markup : MarkupOptions) (renderer : Renderer) (time : Option Instant) (input : Data)
      (text : String), Renderer.create level.profile markup = .ok renderer →
        renderer.render time input = .ok text → Xml.WellFormed text := by
  intro h
  obtain ⟨composed, hcompose⟩ := exists_compose basic
  have hok : (basic.profile.mergedSchema.validate controlInvoice).toOption.isSome = true := by decide +kernel
  obtain ⟨normal, hvalid⟩ := Renderer.exists_validate hcompose {} hok
  have hcreate := Renderer.create_of_compose hcompose {}
  obtain ⟨document, hdocument⟩ := exists_document hcompose (Renderer.of_validate hvalid) none
  have hrender := Renderer.render_eq_ok hvalid hdocument
  have hstands : '\x01' ∈ (Markup.source {} document.root).toList :=
    mem_render_of_line hcreate (by decide) (by decide) hvalid hrender (List.mem_singleton_self _) rfl
      (List.mem_singleton_self _) (by decide)
  have hallowed := (h basic {} _ none controlInvoice _ hcreate hrender).chars _ hstands
  revert hallowed
  decide

end Level

end InvoiceXml
