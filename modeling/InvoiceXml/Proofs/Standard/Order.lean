import InvoiceXml.Proofs.Standard.Parting

/-!
# The order of elements in standard documents

In a document of a standard level the families below an element stand in the order in which the
paths of the profile first pass through them, whatever data is there. The writes come in this order
(`pairwise_inOrder`), but for the country of origin of a product, which goes back to the product
after the agreement of the line. The product is always there by then, since its name must be given
and is declared before.

* **`precedes_of_passesFirst`**: so the families of each element stand in this order;
* **`precedes_in_both`**: and those that two documents of a level share, in the same order in both.
-/

namespace InvoiceXml

open Assembly (visits visitsOfFields writesOf mem_writesOf exists_writes?_of_mem itemsOf itemData fieldVisit)
open Element (Enters)
open Standard (invoiceStep transactionStep lineStep)
open Validation (Normalizes)

/-! ### The product of a line -/

namespace Standard

def productSteps : List Step := [invoiceStep, transactionStep, lineStep, ⟨"ram:SpecifiedTradeProduct", none⟩]

def productNameStep : Step := ⟨"ram:Name", none⟩

def originStep : Step := ⟨"ram:OriginTradeCountry", none⟩

end Standard

open Standard (productSteps productNameStep originStep)

/-- Fields of a line, among them a name of the product that must be given, and a country of its origin. -/
structure Schema.IsProduct (fields : List (String × Field)) : Prop where
  distinct : (fields.map (·.1)).Nodup
  name : ∃ field path, ("name", field) ∈ fields ∧ field.IsMandatory ∧ field.ownPath? = some path ∧
    productSteps ++ [productNameStep] <+: path.steps
  origin : ∃ field path, ("originCountry", field) ∈ fields ∧ field.type.isObjectLike = false ∧
    field.ownPath? = some path ∧ productSteps ++ [originStep] <+: path.steps

namespace Schema

/-- Whether fields of a line have a name of the product and a country of its origin. -/
def isProduct (fields : List (String × Field)) : Bool :=
  decide (fields.map (·.1)).Nodup &&
    hasField "name" (fun field =>
      field.isMandatory && field.isIn (productSteps ++ [productNameStep])) fields &&
    hasField "originCountry" (fun field =>
      !field.type.isObjectLike && field.isIn (productSteps ++ [originStep])) fields

theorem of_isProduct {fields : List (String × Field)} (h : isProduct fields = true) : IsProduct fields := by
  rw [isProduct, Bool.and_eq_true, Bool.and_eq_true] at h
  obtain ⟨⟨hdistinct, hname⟩, horigin⟩ := h
  refine ⟨of_decide_eq_true hdistinct, ?_, ?_⟩
  · obtain ⟨field, hmem, hfield⟩ := exists_of_hasField hname
    rw [Bool.and_eq_true] at hfield
    obtain ⟨path, hpath, hsteps⟩ := Field.of_isIn hfield.2
    exact ⟨field, path, hmem, Field.of_isMandatory hfield.1, hpath, hsteps⟩
  · obtain ⟨field, hmem, hfield⟩ := exists_of_hasField horigin
    rw [Bool.and_eq_true, Bool.not_eq_true'] at hfield
    obtain ⟨path, hpath, hsteps⟩ := Field.of_isIn hfield.2
    exact ⟨field, path, hmem, hfield.1, hpath, hsteps⟩

end Schema

namespace Level

/-- **The lines of the extended level** have a product with a name and a country of origin. -/
theorem exists_product :
    ∃ lines fields, ("lines", lines) ∈ extended.profile.mergedSchema ∧ lines.type = .objectArray ∧
      lines.group = some "lines" ∧ lines.shape = some fields ∧ Schema.IsProduct fields := by
  have hdeclares :
      Schema.hasField "lines" (Field.isArrayOf "lines" Schema.isProduct) extended.profile.mergedSchema =
        true := by
    decide +kernel
  obtain ⟨lines, hmem, hlines⟩ := Schema.exists_of_hasField hdeclares
  obtain ⟨htype, hgroup, fields, hshape, hfields⟩ := Field.of_isArrayOf hlines
  exact ⟨lines, fields, hmem, htype, hgroup, hshape, Schema.of_isProduct hfields⟩

variable {level : Level} {composed : ComposedSchema} {input normal : Data}

/-- What must be given is written. -/
theorem exists_write_of_isMandatory (hcompose : level.profile.compose = .ok composed) {data : Data}
    {writes : List Write} (hwrites : writesOf (visits composed data) = some writes)
    {fields : List (String × Field)} {given item : Data} (hgiven : Normalizes fields given item)
    (hdistinct : (fields.map (·.1)).Nodup) {name : String} {field : Field}
    (hmem : (name, field) ∈ fields) (hmandatory : field.IsMandatory) {bindings : Bindings}
    {place : FieldPath} (hvisit : fieldVisit bindings place item name field ∈ visits composed data)
    {path : Path} (hpath : field.ownPath? = some path) :
    ∃ write ∈ writes, (fieldVisit bindings place item name field).Wrote path write := by
  obtain ⟨entry, hentry, hof⟩ := isStandard_of_mem_visits hcompose hvisit
  have hplain : field.IsPlain := by
    have hfield : field = entry.field := hof.field
    rw [hfield]
    exact hentry.kind.plain
  obtain ⟨validator, hvalidator⟩ := hmandatory.type
  obtain ⟨-, text, -, -, htext⟩ :=
    exists_text_of_isMandatory hgiven hdistinct hmem hmandatory hplain hvalidator bindings place
  obtain ⟨own, hown⟩ := exists_writes?_of_mem hwrites hvisit
  have hscalar : field.type.isObjectLike = false := by
    rw [hvalidator]
    rfl
  obtain ⟨write, hwrite, hwrote, -⟩ := exists_write_of_text hentry hof hown hscalar hpath htext
  exact ⟨write, (mem_writesOf hwrites write).mpr ⟨_, hvisit, own, hown, hwrite⟩, hwrote⟩

/-- A visit of the country of origin writes in the product of its line, and the name of this product
is written. -/
theorem exists_opener (hcompose : extended.profile.compose = .ok composed)
    (hvalid : composed.schema.validate input = .ok normal) {writes : List Write}
    (hwrites : writesOf (visits composed normal) = some writes) {visit : Visit}
    (hvisit : visit ∈ visits composed normal)
    (hnames : visit.path.names = ["lines", "originCountry"]) {path : Path} {write : Write}
    (hplaced : visit.Placed path write) :
    Enters originStep.name (productSteps.map (Step.numbered visit.bindings)) write.address ∧
      ∃ opener ∈ writes,
        Enters productNameStep.name (productSteps.map (Step.numbered visit.bindings)) opener.address := by
  obtain ⟨lines, fields, hmem, htype, hgroup, hshape, hproduct⟩ := exists_product
  have hdistinct := nodup_names_mergedSchema extended
  rw [← Schema.schema_of_compose hcompose] at hmem hdistinct
  obtain ⟨before, after, hsplit⟩ := List.append_of_mem hmem
  -- the visit is one of a line
  have hline := Assembly.mem_visitsOfField_of_names hdistinct hsplit hvisit
    (by rw [hnames]; exact List.prefix_append ["lines"] _)
  rcases (Assembly.mem_visits_bound htype hgroup hshape).mp hline with rfl | ⟨i, item, hitem, hinside⟩
  · exact absurd htype hplaced.type
  obtain ⟨origin, originPath, horigin, hscalar, horiginPath, horiginSteps⟩ := hproduct.origin
  obtain ⟨beforeOrigin, afterOrigin, hsplitOrigin⟩ := List.append_of_mem horigin
  have horiginVisit := Assembly.mem_visitsOfField_of_names hproduct.distinct hsplitOrigin hinside
    (by rw [hnames, FieldPath.names_item]; exact List.prefix_rfl)
  obtain rfl := (Assembly.mem_visits_scalar hscalar).mp horiginVisit
  obtain rfl := Option.some.inj (horiginPath.symm.trans hplaced.own)
  constructor
  · rw [hplaced.address]
    exact enters_of_prefix horiginSteps
  · -- the name of the same product
    obtain ⟨name, namePath, hname, hmandatory, hnamePath, hnameSteps⟩ := hproduct.name
    obtain ⟨given, -, hgiven⟩ := exists_of_forall₂_getElem?
      ((Validation.normalizes_of_validate hvalid).array hdistinct hmem htype hshape) hitem
    have hitemData : itemData item = item := by
      rw [itemData, hgiven.isNull_eq_false]
      rfl
    have hopener : fieldVisit _ _ (itemData item) "name" name ∈ visits composed normal :=
      Assembly.mem_visitsOfFields.mpr ⟨before, "lines", lines, after, hsplit,
        (Assembly.mem_visits_bound htype hgroup hshape).mpr
          (.inr ⟨i, item, hitem, Assembly.fieldVisit_mem_visitsOfFields hname⟩)⟩
    rw [hitemData] at hopener
    obtain ⟨write, hwrite, hwrote⟩ :=
      exists_write_of_isMandatory hcompose hwrites hgiven hproduct.distinct hname hmandatory hopener hnamePath
    refine ⟨write, hwrite, ?_⟩
    rw [hwrote.address]
    exact enters_of_prefix hnameSteps

/-! ### Writes in order -/

/-- Whether a write goes back from a line to its product, with the country of origin. -/
def Returns (level : Level) (composed : ComposedSchema) (data : Data) (outer : List (String × Nat))
    (write : Write) :
    Prop :=
  level = extended ∧ outer.length = 3 ∧ ∃ visit ∈ visits composed data,
    visit.path.names = ["lines", "originCountry"] ∧ ∃ path, visit.Placed path write

/-- Where a write returns, there is one that does not. -/
theorem exists_not_returns (hcompose : level.profile.compose = .ok composed)
    (hvalid : composed.schema.validate input = .ok normal) {writes : List Write}
    (hwrites : writesOf (visits composed normal) = some writes) {write : Write} {name : String}
    {outer : List (String × Nat)} (henters : Enters name outer write.address)
    (hreturns : level.Returns composed normal outer write) :
    ∃ opener ∈ writes, Enters name outer opener.address ∧ ¬level.Returns composed normal outer opener := by
  obtain ⟨rfl, hlength, visit, hvisit, hnames, path, hplaced⟩ := hreturns
  obtain ⟨horigin, opener, hopener, hname⟩ := exists_opener hcompose hvalid hwrites hvisit hnames hplaced
  refine ⟨opener, hopener, ?_, ?_⟩
  · -- the product is all that is entered from the line
    obtain ⟨number, hunder⟩ := henters
    obtain ⟨_, hproduct⟩ := horigin
    obtain ⟨_, hopened⟩ := hname
    have hsame := List.prefix_of_prefix_length_le hunder ((List.prefix_append _ _).trans hproduct)
      (by simp [hlength, productSteps])
    exact ⟨number, hsame.trans ((List.prefix_append _ _).trans hopened)⟩
  · intro hreturns
    obtain ⟨-, -, other, hother, hothers, way, hway⟩ := hreturns
    obtain ⟨horigin', -⟩ := exists_opener hcompose hvalid hwrites hother hothers hway
    obtain ⟨_, hproduct⟩ := horigin'
    obtain ⟨_, hopened⟩ := hname
    have hsame := (List.prefix_of_prefix_length_le hproduct hopened (by simp)).eq_of_length (by simp)
    obtain ⟨-, hlast⟩ := List.append_inj' hsame rfl
    have hname : originStep.name = productNameStep.name := congrArg Prod.fst (List.singleton_inj.mp hlast)
    exact absurd hname (by decide)

/-- The ranks of a level. -/
def rank (level : Level) : List String → Nat := firstPass level.profile.ways

/-- Writes of a visit all go to one place. -/
theorem inOrder_of_same_visit (hcompose : level.profile.compose = .ok composed) {data : Data} {visit : Visit}
    (hvisit : visit ∈ visits composed data) {own : List Write} (hown : visit.writes? = some own) :
    own.Pairwise (Write.InOrder level.rank (level.Returns composed data)) := by
  refine List.pairwise_of_forall_mem_list
    fun write hwrite later hlater outer name next henters hnext hne => ?_
  obtain ⟨path, hpath⟩ := exists_placed hcompose hvisit hown hwrite
  obtain ⟨way, hway⟩ := exists_placed hcompose hvisit hown hlater
  obtain rfl := Option.some.inj (hpath.own.symm.trans hway.own)
  rw [hpath.address, ← hway.address] at henters
  exact absurd (henters.unique hnext) hne

/-- **Writes of two visits come in the order of ranks.** -/
theorem inOrder_of_before (hcompose : level.profile.compose = .ok composed)
    (hvalid : composed.schema.validate input = .ok normal) {visit later : Visit}
    (hvisit : visit ∈ visits composed normal) (hlater : later ∈ visits composed normal)
    (hbefore : visit.Before composed.schema.entries later) {own others : List Write}
    (hown : visit.writes? = some own) (hothers : later.writes? = some others) {write other : Write}
    (hwrite : write ∈ own) (hother : other ∈ others) :
    Write.InOrder level.rank (level.Returns composed normal) write other := by
  intro outer name next henters hnext hne
  obtain ⟨path, hpath⟩ := exists_placed hcompose hvisit hown hwrite
  obtain ⟨way, hway⟩ := exists_placed hcompose hlater hothers hother
  cases hbefore with
  | item hlt hmem hfurther =>
    exact absurd (hpath.number_eq_of_enters hway hmem hfurther henters hnext hne) (Nat.ne_of_lt hlt)
  | @declared entry further hsublist hof hfurther =>
    have hpair :
        level.ComesBefore (entry.names, path.steps.map Step.name) (further.names,
            way.steps.map Step.name) := by
      rw [Schema.schema_of_compose hcompose] at hsublist
      refine comesBefore_of_sublist hsublist ?_ ?_
      · rw [← hof.field]
        exact hpath.own
      · rw [← hfurther.field]
        exact hway.own
    have hnot := not_separates hcompose hvalid hvisit hlater hpath.toWrote hway.toWrote henters hnext hne
    rcases hpair _ name next (hpath.prefix_of_enters henters) (hway.prefix_of_enters hnext) hne with
      hlt | hseparates | hback
    · exact .inl hlt
    · rw [← hof.names, ← hfurther.names] at hseparates
      rw [hseparates] at hnot
      cases hnot
    · rw [← hfurther.names, returnsToProduct, Bool.and_eq_true, Bool.and_eq_true, beq_iff_eq,
        beq_iff_eq, beq_iff_eq, List.length_map] at hback
      obtain ⟨⟨hlevel, hnames⟩, hlength⟩ := hback
      exact .inr ⟨hlevel, hlength, later, hlater, hnames, way, hway⟩

/-! ### Documents in order -/

/-- **The writes of valid data come in the order of ranks.** -/
theorem pairwise_inOrder (hcompose : level.profile.compose = .ok composed)
    (hvalid : composed.schema.validate input = .ok normal) {guideline : Write} {others : List Write}
    (hguideline : guideline.address = guidelineAddress)
    (hothers : writesOf (visits composed normal) = some others) :
    (guideline :: others).Pairwise (Write.InOrder level.rank (level.Returns composed normal)) := by
  rw [List.pairwise_cons]
  constructor
  · -- the guideline has the first of all ways
    intro write _ outer name next henters _ hne
    have hway : guidelineAddress.map Prod.fst ∈ level.profile.ways := by
      rw [ways_profile]
      exact List.mem_cons_self
    have hpass : outer.map Prod.fst ++ [name] <+: guidelineAddress.map Prod.fst := by
      rw [← hguideline]
      exact henters.map_fst
    have hzero : level.rank (outer.map Prod.fst ++ [name]) = 0 := by
      rw [rank, ways_profile]
      exact firstPass_eq_zero hpass
    refine .inl (hzero ▸ Nat.pos_of_ne_zero fun hnext => ?_)
    exact firstPass_ne hway hpass hne (hzero.trans hnext.symm)
  · have hgroups := isSome_group_of_mem_entries level
    rw [← Schema.schema_of_compose hcompose] at hgroups
    refine Assembly.pairwise_writesOf hothers
      (fun visit hvisit own hown => inOrder_of_same_visit hcompose hvisit hown) ?_
    refine (Assembly.pairwise_visits hgroups normal).imp_of_mem ?_
    intro visit later hvisit hlater hbefore own theirs hown htheirs write hwrite other hother
    exact inOrder_of_before hcompose hvalid hvisit hlater hbefore hown htheirs hwrite hother

/-- The paths of a level first pass through the one name below an element, and later through the other. -/
def PassesFirst (level : Level) (outer : List String) (first second : String) : Prop :=
  level.rank (outer ++ [first]) < level.rank (outer ++ [second]) ∧
    level.rank (outer ++ [second]) < level.profile.ways.length

section Document

variable {time : Option Instant} {document : Document} (hcompose : level.profile.compose = .ok composed)
  (hvalid : composed.schema.validate input = .ok normal)
  (hdocument : Assembly.assemble composed (Renderer.assemblyOptions level.profile time) normal = .ok document)

include hcompose hvalid hdocument

/-- A document is the guideline and then the writes of its visits, below a bare root. -/
theorem exists_root_eq :
    ∃ guideline others namespaces, guideline.address = guidelineAddress ∧
      writesOf (visits composed normal) = some others ∧
      document.root = (Assembly.newRoot namespaces document.root.name).withWrites (guideline :: others) ∧
      ∀ write ∈ guideline :: others, write.StartsAt document.root.name := by
  obtain ⟨guideline, others, hlist, hguideline, -, hothers, -⟩ := exists_writeList hcompose hvalid
  obtain ⟨writes, hwrites, hplace⟩ := Assembly.placeAll_writeList hdocument
  obtain rfl := Option.some.inj (hlist.symm.trans hwrites)
  obtain ⟨hroot, hall⟩ := Assembly.placeAll_eq_ok hplace
  exact ⟨guideline, others, _, hguideline, hothers, hroot, hall⟩

variable {address : List (String × Nat)} {element : Element} (hat : document.at? address = some element)

include hat

/-- A path of the level passes through each family that is there. -/
theorem exists_way {name : String} (hhas : element.Has name) :
    ∃ way ∈ level.profile.ways, address.map Prod.fst ++ [name] <+: way := by
  obtain ⟨guideline, others, _, hguideline, hothers, hroot, hall⟩ := exists_root_eq hcompose hvalid hdocument
  obtain ⟨write, hwrite, henters⟩ := (Assembly.has_at?_iff hroot hall hat).mp hhas
  simp only [ways_profile, List.exists_mem_cons_iff]
  rcases List.mem_cons.mp hwrite with rfl | hwrite
  · exact .inl (hguideline ▸ henters.map_fst)
  · obtain ⟨visit, hvisit, own, hown, hmem⟩ := (mem_writesOf hothers write).mp hwrite
    obtain ⟨entry, hentry, hof⟩ := Assembly.of_entry_of_mem_visits hvisit
    rw [Schema.schema_of_compose hcompose] at hentry
    obtain ⟨path, hpath⟩ := exists_placed hcompose hvisit hown hmem
    refine .inr ⟨path.steps.map Step.name, ?_, hpath.prefix_of_enters henters⟩
    rw [Schema.placements, List.map_filterMap]
    refine List.mem_filterMap.mpr ⟨entry, hentry, ?_⟩
    rw [← hof.field, hpath.own]
    rfl

/-- Of two families that are there, paths pass through one before the other. -/
theorem passesFirst_or {first second : String} (hne : first ≠ second) (hfirst : element.Has first)
    (hsecond : element.Has second) :
    level.PassesFirst (address.map Prod.fst) first second ∨
      level.PassesFirst (address.map Prod.fst) second first := by
  obtain ⟨way, hway, hpass⟩ := exists_way hcompose hvalid hdocument hat hfirst
  obtain ⟨other, hother, hpassOther⟩ := exists_way hcompose hvalid hdocument hat hsecond
  rcases Nat.lt_or_gt_of_ne (firstPass_ne hway hpass hne) with hlt | hgt
  · exact .inl ⟨hlt, firstPass_lt hother hpassOther⟩
  · exact .inr ⟨hgt, firstPass_lt hway hpass⟩

/-- **The families of an element stand in the order in which the paths of the level first pass
through them.** -/
theorem precedes_of_passesFirst {first second : String} (hhas : element.Has first)
    (h : level.PassesFirst (address.map Prod.fst) first second) : element.Precedes first second := by
  obtain ⟨guideline, others, _, hguideline, hothers, hroot, hall⟩ := exists_root_eq hcompose hvalid hdocument
  refine Assembly.precedes_of_inOrder hroot hall
    (pairwise_inOrder hcompose hvalid hguideline hothers) ?_ hat hhas h.1
  intro write _ name outer henters hreturns
  obtain ⟨opener, hopener, h⟩ := exists_not_returns hcompose hvalid hothers henters hreturns
  exact ⟨opener, List.mem_cons_of_mem _ hopener, h⟩

end Document

/-- **The order of elements does not depend on the data.** Any two elements at the same names, in
documents of any two inputs that the level accepts, have the families that both have in the same
order, that in which the paths of the level first pass through them. -/
theorem precedes_in_both {markup : MarkupOptions} {renderer : Renderer}
    (hrenderer : Renderer.create level.profile markup = .ok renderer) {input other normal otherNormal : Data}
    (hvalid : renderer.validate input = .ok normal) (hother : renderer.validate other = .ok otherNormal)
    (time otherTime : Option Instant) :
    ∃ document otherDocument, renderer.document time normal = .ok document ∧
      renderer.document otherTime otherNormal = .ok otherDocument ∧
      ∀ address otherAddress element otherElement, document.at? address = some element →
        otherDocument.at? otherAddress = some otherElement →
          address.map Prod.fst = otherAddress.map Prod.fst →
          ∀ first second, first ≠ second → element.Has first → element.Has second →
            otherElement.Has first → otherElement.Has second →
              level.PassesFirst (address.map Prod.fst) first second ∧ element.Precedes first second ∧
                  otherElement.Precedes first second ∨
                level.PassesFirst (address.map Prod.fst) second first ∧ element.Precedes second first ∧
                  otherElement.Precedes second first := by
  obtain ⟨composed, hcompose, rfl⟩ := Renderer.of_create hrenderer
  have hnormal := Renderer.of_validate hvalid
  have hotherNormal := Renderer.of_validate hother
  obtain ⟨document, hdocument⟩ := exists_document hcompose hnormal time
  obtain ⟨otherDocument, hotherDocument⟩ := exists_document hcompose hotherNormal otherTime
  refine ⟨document, otherDocument, by rw [Renderer.document, hdocument],
    by rw [Renderer.document, hotherDocument], ?_⟩
  intro address otherAddress element otherElement hat hotherAt hnames first second hne hfirst
    hsecond hotherFirst
    hotherSecond
  rcases passesFirst_or hcompose hnormal hdocument hat hne hfirst hsecond with hpass | hpass
  · exact .inl ⟨hpass, precedes_of_passesFirst hcompose hnormal hdocument hat hfirst hpass,
      precedes_of_passesFirst hcompose hotherNormal hotherDocument hotherAt hotherFirst (hnames ▸ hpass)⟩
  · exact .inr ⟨hpass, precedes_of_passesFirst hcompose hnormal hdocument hat hsecond hpass,
      precedes_of_passesFirst hcompose hotherNormal hotherDocument hotherAt hotherSecond (hnames ▸ hpass)⟩

/-- An invoice of one line, whose product is from another country, and nothing beside what must be given. -/
def importInvoice : Data :=
  .obj [
    ("document", .obj [("number", .str "R-2"), ("typeCode", .str "380"), ("issueDate", .str "2024-03-16")]),
    ("lines", .arr [.obj [
      ("id", .str "1"), ("name", .str "Desk"), ("netPrice", .str "97"), ("quantity", .str "1"),
      ("unitCode", .str "C62"), ("taxCategory", .str "S"), ("originCountry", .str "SE"),
      ("lineTotal", .str "97")]]),
    ("agreement", .obj [
      ("seller", .obj [("name", .str "Seller"), ("countryCode", .str "DE")]),
      ("buyer", .obj [("name", .str "Buyer"), ("countryCode", .str "FR")])]),
    ("settlement", .obj [
      ("currency", .str "EUR"),
      ("totals", .obj [("taxBasisTotal", .str "97"), ("grandTotal", .str "97"), ("duePayable", .str "97")])])]

theorem precedes_in_both_importInvoice :
    ∃ renderer normal otherNormal, Renderer.create extended.profile {} = .ok renderer ∧
      renderer.validate reducedInvoice = .ok normal ∧ renderer.validate importInvoice = .ok otherNormal ∧
        ∃ document otherDocument, renderer.document none normal = .ok document ∧
          renderer.document none otherNormal = .ok otherDocument ∧
          ∀ address otherAddress element otherElement, document.at? address = some element →
            otherDocument.at? otherAddress = some otherElement →
              address.map Prod.fst = otherAddress.map Prod.fst →
              ∀ first second, first ≠ second → element.Has first → element.Has second →
                otherElement.Has first → otherElement.Has second →
                  extended.PassesFirst (address.map Prod.fst) first second ∧ element.Precedes first second ∧
                      otherElement.Precedes first second ∨
                    extended.PassesFirst (address.map Prod.fst) second first ∧ element.Precedes second first ∧
                      otherElement.Precedes second first := by
  obtain ⟨composed, hcompose⟩ := exists_compose extended
  obtain ⟨normal, hvalid⟩ := Renderer.exists_validate hcompose {}
    (show (extended.profile.mergedSchema.validate reducedInvoice).toOption.isSome = true by decide +kernel)
  obtain ⟨otherNormal, hother⟩ := Renderer.exists_validate hcompose {}
    (show (extended.profile.mergedSchema.validate importInvoice).toOption.isSome = true by decide +kernel)
  have hrenderer : Renderer.create extended.profile {} = .ok ⟨extended.profile, composed, {}⟩ := by
    rw [Renderer.create, hcompose]
  exact ⟨_, normal, otherNormal, hrenderer, hvalid, hother,
    precedes_in_both hrenderer hvalid hother none none⟩

end Level

end InvoiceXml
