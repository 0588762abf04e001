import InvoiceXml.Proofs.Standard.Charge

/-!
# Invoices

What the documents of the standard levels show of the data they are made from.

* `InvoiceSettlement.scope` and `InvoiceLines.scope`: the settlement and each line are scopes of
  allowances and charges;
* **`InvoiceLines.showsLines`**: the elements of lines show the lines, in order;
* **`document_showsCharges`**: documents show all allowances and charges, of the document and of its
  lines.
-/

namespace InvoiceXml

open Assembly (itemsOf itemData visits visitsOfField visitsOfFields frameAfterFields fieldVisit)
open Standard (anchor chargeName lineName invoiceStep transactionStep settlementStep lineSettlementStep
  transactionAddress)
open Validation (Normalizes)

/-! ### Addresses -/

namespace Standard

/-- Where the settlement of the document stands. -/
def settlementAddress : List (String × Nat) := transactionAddress ++ [(settlementStep.name, 0)]

/-- Where a line stands. -/
def lineAddress (number : Nat) : List (String × Nat) := transactionAddress ++ [(lineName, number)]

/-- Where the settlement of a line stands. -/
def lineSettlementAddress (number : Nat) : List (String × Nat) :=
  lineAddress number ++ [(lineSettlementStep.name, 0)]

end Standard

open Standard (settlementAddress lineAddress lineSettlementAddress)

namespace Visit.Wrote

variable {visit : Visit} {path : Path} {write : Write}

/-- Only the items of the allowances and charges of the document are written in their elements. -/
theorem of_settlement_charge (h : visit.Wrote path write) {number : Nat}
    (hunder : settlementAddress ++ [(chargeName, number)] <+: write.address) :
    (∃ rest, visit.path.names = "settlement" :: "allowances" :: rest ∧
        (visit.bindings.lookup "allowances").getD 0 = number) ∨
      ∃ rest, visit.path.names = "settlement" :: "charges" :: rest ∧
        (visit.bindings.lookup "charges").getD 0 = number := by
  have hanchor := h.prefix_anchor (.inl rfl) hunder
  generalize visit.path.names = names at hanchor ⊢
  unfold anchor at hanchor
  split at hanchor
  · refine .inl ⟨_, rfl, ?_⟩
    simpa [settlementAddress, transactionAddress, Step.numbered, Standard.chargeStep, invoiceStep,
      transactionStep, settlementStep, eq_comm] using hanchor
  · refine .inr ⟨_, rfl, ?_⟩
    simpa [settlementAddress, transactionAddress, Step.numbered, Standard.chargeStep, invoiceStep,
      transactionStep, settlementStep, eq_comm] using hanchor
  all_goals
    simp [settlementAddress, transactionAddress, Step.numbered, Standard.chargeStep,
      Standard.lineStep, invoiceStep, transactionStep, settlementStep, lineSettlementStep,
      lineName] at hanchor

/-- Only what belongs to a line is written in its element. -/
theorem of_line (h : visit.Wrote path write) {number : Nat} (hunder : lineAddress number <+: write.address) :
    ∃ rest, visit.path.names = "lines" :: rest ∧ (visit.bindings.lookup "lines").getD 0 = number := by
  have hanchor := h.prefix_anchor (.inr rfl) hunder
  generalize visit.path.names = names at hanchor ⊢
  unfold anchor at hanchor
  split at hanchor
  · simp [transactionAddress, Step.numbered, invoiceStep, transactionStep, settlementStep,
      lineName] at hanchor
  · simp [transactionAddress, Step.numbered, invoiceStep, transactionStep, settlementStep,
      lineName] at hanchor
  · exact ⟨_, rfl,
      by simpa [transactionAddress, Step.numbered, Standard.lineStep, invoiceStep, transactionStep,
      eq_comm] using hanchor⟩
  · exact ⟨_, rfl,
      by simpa [transactionAddress, Step.numbered, Standard.lineStep, invoiceStep, transactionStep,
      eq_comm] using hanchor⟩
  · exact ⟨_, rfl,
      by simpa [transactionAddress, Step.numbered, Standard.lineStep, invoiceStep, transactionStep,
      eq_comm] using hanchor⟩
  · simp [transactionAddress, Step.numbered, invoiceStep, transactionStep, lineName] at hanchor

/-- Only the items of the allowances and charges of a line are written in their elements. -/
theorem of_line_charge (h : visit.Wrote path write) {line number : Nat}
    (hunder : lineSettlementAddress line ++ [(chargeName, number)] <+: write.address) :
    (∃ rest, visit.path.names = "lines" :: "allowances" :: rest ∧
        (visit.bindings.lookup "lineAllowances").getD 0 = number) ∨
      ∃ rest, visit.path.names = "lines" :: "charges" :: rest ∧
        (visit.bindings.lookup "lineCharges").getD 0 = number := by
  have hanchor := h.prefix_anchor (.inl rfl) hunder
  generalize visit.path.names = names at hanchor ⊢
  unfold anchor at hanchor
  split at hanchor
  case h_3 =>
    refine .inl ⟨_, rfl, ?_⟩
    obtain ⟨-, hnumber⟩ : line = (visit.bindings.lookup "lines").getD 0 ∧
        number = (visit.bindings.lookup "lineAllowances").getD 0 := by
      simpa [lineSettlementAddress, lineAddress, transactionAddress, Step.numbered, Standard.chargeStep,
        Standard.lineStep, invoiceStep, transactionStep, lineSettlementStep] using hanchor
    exact hnumber.symm
  case h_4 =>
    refine .inr ⟨_, rfl, ?_⟩
    obtain ⟨-, hnumber⟩ : line = (visit.bindings.lookup "lines").getD 0 ∧
        number = (visit.bindings.lookup "lineCharges").getD 0 := by
      simpa [lineSettlementAddress, lineAddress, transactionAddress, Step.numbered, Standard.chargeStep,
        Standard.lineStep, invoiceStep, transactionStep, lineSettlementStep] using hanchor
    exact hnumber.symm
  all_goals
    simp [lineSettlementAddress, lineAddress, transactionAddress, Step.numbered, Standard.chargeStep,
      Standard.lineStep, invoiceStep, transactionStep, settlementStep, lineName] at hanchor

/-- What belongs to a line stands in the line itself, or in an allowance or charge in its settlement. -/
theorem anchor_of_line (h : visit.Wrote path write) {number : Nat}
    (hunder : lineAddress number <+: write.address) :
    (anchor visit.path.names).map (Step.numbered visit.bindings) = lineAddress number ∨
      lineSettlementAddress number <+: (anchor visit.path.names).map (Step.numbered visit.bindings) := by
  obtain ⟨rest, hnames, rfl⟩ := h.of_line hunder
  rw [hnames]
  unfold anchor
  split
  case h_3 => exact .inr (List.prefix_append _ [_])
  case h_4 => exact .inr (List.prefix_append _ [_])
  case h_5 => exact .inl rfl
  case h_6 hline => exact absurd rfl (hline rest)
  all_goals simp_all

/-- There is one transaction, and one settlement of it. -/
theorem number_eq_zero (h : visit.Wrote path write) {name : String} {number : Nat}
    (hname : name = transactionStep.name ∨ name = settlementStep.name)
    (hmem : (name, number) ∈ write.address) : number = 0 := by
  have hanchor : ∀ step ∈ anchor visit.path.names,
      step.name = transactionStep.name ∨ step.name = settlementStep.name → step.selector = none := by
    unfold anchor
    split <;> decide
  rw [h.address] at hmem
  obtain ⟨step, hstep, heq⟩ := List.mem_map.mp hmem
  have hstepName : step.name = name := congrArg Prod.fst heq
  have hnone : step.selector = none := by
    rw [h.stands.anchored] at hstep
    rcases List.mem_append.mp hstep with hstep | hstep
    · exact hanchor step hstep (hstepName ▸ hname)
    · exact h.stands.sole step hstep (hstepName ▸ hname)
  rw [Step.numbered_of_none hnone] at heq
  exact (congrArg Prod.snd heq).symm

end Visit.Wrote

/-! ### The settlement -/

/-- A field whose text is always there enters the elements on its path. -/
theorem Document.WrittenBy.exists_write_in {document : Document} {composed : ComposedSchema}
    {data : Data} {writes : List Write} (h : document.WrittenBy composed data writes)
    {visit : Visit} (hvisit : visit ∈ visits composed data)
    (hscalar : visit.field.type.isObjectLike = false) {path : Path}
    (hpath : visit.field.ownPath? = some path) {text : String} (htext : visit.text? = some text)
    {steps : List Step} (hsteps : steps <+: path.steps) :
    ∃ write ∈ writes, steps.map (Step.numbered visit.bindings) <+: write.address := by
  obtain ⟨write, hwrite, hwrote, -⟩ := h.written visit hvisit hscalar path text hpath htext
  refine ⟨write, hwrite, ?_⟩
  rw [hwrote.address]
  exact hsteps.map _

/-- The settlement of a document. -/
structure InvoiceSettlement (composed : ComposedSchema) (data : Data) where
  fields : List (String × Field)
  path : FieldPath
  frame : Frame
  input : Data
  normal : Data
  declared : Schema.DeclaresCharges "allowances" "charges" fields
  currency : ∃ field way, ("currency", field) ∈ fields ∧ field.IsMandatory ∧ field.ownPath? = some way ∧
    [invoiceStep, transactionStep, settlementStep] <+: way.steps
  names : path.names = ["settlement"]
  valid : Normalizes fields input normal
  chain_allowances : composed.groups.siblingChain "allowances" = []
  chain_charges : composed.groups.siblingChain "charges" = ["allowances"]
  mem_iff : ∀ visit, visit ∈ visitsOfFields composed.groups [] path normal fields frame ↔
    visit ∈ visits composed data ∧ ∃ first, ["settlement"] ++ [first] <+: visit.path.names

namespace InvoiceSettlement

variable {composed : ComposedSchema} {data : Data}

/-- The settlement is entered, since its currency is always written. -/
theorem exists_write (settlement : InvoiceSettlement composed data) {document : Document}
    {writes : List Write} (h : document.WrittenBy composed data writes) :
    ∃ write ∈ writes, settlementAddress <+: write.address := by
  obtain ⟨field, path, hmem, hmandatory, hpath, hsteps⟩ := settlement.currency
  have hvisit : fieldVisit [] settlement.path settlement.normal "currency" field ∈ visits composed data :=
    ((settlement.mem_iff _).mp (Assembly.fieldVisit_mem_visitsOfFields hmem)).1
  obtain ⟨validator, hscalar⟩ := hmandatory.type
  obtain ⟨_, text, -, -, htext⟩ := exists_text_of_isMandatory settlement.valid settlement.declared.distinct
    hmem hmandatory (h.kind _ hvisit).plain hscalar [] settlement.path
  exact h.exists_write_in hvisit (by rw [fieldVisit, hscalar]; rfl) hpath htext hsteps

/-- The allowances and charges of the document. -/
def scope (settlement : InvoiceSettlement composed data) : ChargeScope composed data where
  parent := "settlement"
  allowances := "allowances"
  charges := "charges"
  fields := settlement.fields
  path := settlement.path
  bindings := []
  frame := settlement.frame
  address := settlementAddress
  input := settlement.input
  normal := settlement.normal
  declared := settlement.declared
  names := settlement.names
  valid := settlement.valid
  inner := List.prefix_append _ _
  anchored_allowances := fun _ _ => rfl
  anchored_charges := fun _ _ => rfl
  chain_allowances := settlement.chain_allowances
  chain_charges := settlement.chain_charges
  visited := fun visit hvisit => ((settlement.mem_iff visit).mp hvisit).1
  located := by
    intro visit hvisit way write hwrote number hunder
    have hcases := hwrote.of_settlement_charge hunder
    refine ⟨(settlement.mem_iff visit).mpr ⟨hvisit, ?_⟩, hcases⟩
    rcases hcases with ⟨rest, hnames, -⟩ | ⟨rest, hnames, -⟩
    · exact ⟨"allowances", rest, hnames.symm⟩
    · exact ⟨"charges", rest, hnames.symm⟩

end InvoiceSettlement

/-- **The settlement of a document**, as its visits have written it. -/
theorem Level.exists_invoiceSettlement {level : Level} {composed : ComposedSchema} {input normal : Data}
    (hcompose : level.profile.compose = .ok composed) (hlevel : level ≠ minimum)
    (hvalid : composed.schema.validate input = .ok normal) :
    ∃ settlement : InvoiceSettlement composed normal,
      settlement.input = (input.present? "settlement").getD (.obj []) := by
  obtain ⟨field, fields, hmem, htype, hshape, hcharges, hcurrency⟩ := exists_settlement hlevel
  obtain ⟨hchain, hchain'⟩ := siblingChain_charges hcompose hlevel
  have hdistinct := nodup_names_mergedSchema level
  rw [← Schema.schema_of_compose hcompose] at hmem hdistinct
  obtain ⟨value, hvalue, hinner⟩ :=
    (Validation.normalizes_of_validate hvalid).object hdistinct hmem htype hshape
  have hvisits : ∃ frame, ∀ visit, visit ∈ visitsOfFields composed.groups [] (FieldPath.field [] "settlement")
      ((normal.present? "settlement").getD (.obj [])) fields frame ↔
        visit ∈ visits composed normal ∧ ∃ first, ["settlement"] ++ [first] <+: visit.path.names :=
    Assembly.exists_visits_object hdistinct hmem htype hshape
  obtain ⟨frame, hvisits⟩ := hvisits
  rw [hvalue, Option.getD_some] at hvisits
  exact ⟨{
    fields, path := FieldPath.field [] "settlement", frame
    input := (input.present? "settlement").getD (.obj []), normal := value
    declared := hcharges, currency := hcurrency, names := rfl, valid := hinner
    chain_allowances := hchain, chain_charges := hchain'
    mem_iff := hvisits }, rfl⟩

/-! ### Lines -/

/-- Whether an element shows a line: its id, and in its only settlement its allowances and charges. -/
def ShowsLine (line : Data) (element : Element) : Prop :=
  (∃ id, line.present? "id" = some (.str id) ∧ element.textsAt Standard.lineIdPlace = [some id]) ∧
    ∃ settlement, element.named lineSettlementStep.name = [settlement] ∧ ShowsCharges line settlement

/-- The lines of a document. -/
structure InvoiceLines (composed : ComposedSchema) (data : Data) where
  fields : List (String × Field)
  path : FieldPath
  inputs : List Data
  normals : List Data
  declared : Schema.DeclaresCharges "lineAllowances" "lineCharges" fields
  id : ∃ field, ("id", field) ∈ fields ∧ field.IsMandatory
  settlement : ∃ field way, ("taxTypeCode", field) ∈ fields ∧ field.IsConstant "VAT" ∧
    field.ownPath? = some way ∧
    [invoiceStep, transactionStep, Standard.lineStep, lineSettlementStep] <+: way.steps
  names : path.names = ["lines"]
  valid : List.Forall₂ (fun input normal => Normalizes fields (itemData input) normal) inputs normals
  chain_allowances : composed.groups.siblingChain "lineAllowances" = []
  chain_charges : composed.groups.siblingChain "lineCharges" = ["lineAllowances"]
  visited : ∀ i normal, normals[i]? = some normal →
    ∀ visit ∈ visitsOfFields composed.groups [("lines", i)] (path.item i) normal fields [],
      visit ∈ visits composed data
  located : ∀ visit ∈ visits composed data, ∀ way write, visit.Wrote way write →
    ∀ number, lineAddress number <+: write.address → ∃ normal, normals[number]? = some normal ∧
      visit ∈ visitsOfFields composed.groups [("lines", number)] (path.item number) normal fields []

namespace Standard

theorem nodup_groupsAround (names : List String) : (groupsAround names).Nodup := by
  unfold groupsAround
  split <;> decide

theorem eq_of_tracked_lineId {names : List String} (h : tracked names = some lineIdPlace) :
    names = ["lines", "id"] := by
  unfold tracked at h
  split at h
  · exact absurd (Option.some.inj h) (by decide)
  · exact absurd (Option.some.inj h) (by decide)
  · rfl
  · cases h

end Standard

/-- The number of a group is bound once. -/
theorem Visit.Wrote.lookup_of_mem {visit : Visit} {path : Path} {write : Write} (h : visit.Wrote path write)
    {group : String} {number : Nat} (hmem : (group, number) ∈ visit.bindings) :
    visit.bindings.lookup group = some number := by
  obtain ⟨others, rest, hothers⟩ := List.append_of_mem hmem
  have hnodup : (visit.bindings.map (·.1)).Nodup := by
    rw [h.scope, List.nodup_reverse]
    exact Standard.nodup_groupsAround _
  rw [hothers, List.map_append, List.nodup_append] at hnodup
  rw [List.lookup_eq_some_iff]
  refine ⟨others, rest, hothers, fun other hother => ?_⟩
  rw [bne_iff_ne]
  exact fun heq => hnodup.2.2 other.1 (List.mem_map_of_mem (f := (·.1)) hother) group (by simp) heq.symm

namespace InvoiceLines

variable {composed : ComposedSchema} {data : Data} (lines : InvoiceLines composed data)

/-- The fields of a line are visited. -/
theorem mem_visits {i : Nat} {normal : Data} (hnormal : lines.normals[i]? = some normal)
    {name : String} {field : Field} (hmem : (name, field) ∈ lines.fields) :
    fieldVisit [("lines", i)] (lines.path.item i) normal name field ∈ visits composed data :=
  lines.visited i normal hnormal _ (Assembly.fieldVisit_mem_visitsOfFields hmem)

theorem names_fieldVisit (i : Nat) (normal : Data) (name : String) (field : Field) :
    (fieldVisit [("lines", i)] (lines.path.item i) normal name field).path.names = ["lines", name] := by
  rw [Assembly.names_fieldVisit, FieldPath.names_item, lines.names]
  rfl

variable {document : Document} {writes : List Write}

/-- The settlement of a line is entered, since its tax is always written. -/
theorem exists_write_of_lt (h : document.WrittenBy composed data writes) {i : Nat}
    (hi : i < lines.inputs.length) :
    ∃ write ∈ writes, lineSettlementAddress i <+: write.address := by
  obtain ⟨input, hinput⟩ : ∃ input, lines.inputs[i]? = some input := ⟨_, List.getElem?_eq_getElem hi⟩
  obtain ⟨normal, hnormal, hvalid⟩ := exists_of_forall₂_getElem? lines.valid.flip hinput
  obtain ⟨field, path, hmem, hconstant, hpath, hsteps⟩ := lines.settlement
  have hvisit := lines.mem_visits hnormal hmem
  have htext := text?_of_isConstant hvalid lines.declared.distinct hmem hconstant (h.kind _ hvisit).plain
    [("lines", i)] (lines.path.item i)
  exact h.exists_write_in hvisit (by rw [fieldVisit, hconstant.type]; rfl) hpath htext hsteps

/-- The allowances and charges of a line. -/
def scope {i : Nat} {input normal : Data} (hnormal : lines.normals[i]? = some normal)
    (hvalid : Normalizes lines.fields (itemData input) normal) : ChargeScope composed data where
  parent := "lines"
  allowances := "lineAllowances"
  charges := "lineCharges"
  fields := lines.fields
  path := lines.path.item i
  bindings := [("lines", i)]
  frame := []
  address := lineSettlementAddress i
  input := itemData input
  normal := normal
  declared := lines.declared
  names := by rw [FieldPath.names_item, lines.names]
  valid := hvalid
  inner := (List.prefix_append _ _).trans (List.prefix_append _ _)
  anchored_allowances := fun _ _ => rfl
  anchored_charges := fun _ _ => rfl
  chain_allowances := lines.chain_allowances
  chain_charges := lines.chain_charges
  visited := lines.visited i normal hnormal
  located := by
    intro visit hvisit way write hwrote number hunder
    have hline : lineAddress i <+: write.address :=
      (List.prefix_append _ _).trans ((List.prefix_append _ _).trans hunder)
    obtain ⟨found, hfound, hinside⟩ := lines.located visit hvisit way write hwrote i hline
    obtain rfl := Option.some.inj (hnormal.symm.trans hfound)
    exact ⟨hinside, hwrote.of_line_charge hunder⟩

/-- The text of a line's id is the only one in its place. -/
theorem textsAt_id (h : document.WrittenBy composed data writes) {i : Nat} {input : Data}
    (hinput : lines.inputs[i]? = some input) {element : Element}
    (hat : document.at? (lineAddress i) = some element) :
    ∃ id, input.present? "id" = some (.str id) ∧ element.textsAt Standard.lineIdPlace = [some id] := by
  obtain ⟨normal, hnormal, hvalid⟩ := exists_of_forall₂_getElem? lines.valid.flip hinput
  obtain ⟨field, hmem, hmandatory⟩ := lines.id
  have hvisit := lines.mem_visits hnormal hmem
  have hkind := h.kind _ hvisit
  obtain ⟨identity, htype⟩ := hkind.id (by rw [lines.names_fieldVisit]; rfl)
  have htype : field.type = .scalar (.text identity) := htype
  obtain ⟨path, hpath⟩ := hmandatory.path
  obtain ⟨value, text, hcheck, hvalue, htext⟩ := exists_text_of_isMandatory hvalid lines.declared.distinct
    hmem hmandatory hkind.plain htype [("lines", i)] (lines.path.item i)
  have hcheck : Validator.checkText {} (((itemData input).present? "id").getD .null) = .ok value := hcheck
  obtain ⟨id, hid, rfl⟩ := Validator.checkText_eq_ok hcheck
  obtain rfl : id = text := Option.some.inj hvalue
  refine ⟨id, ?_, ?_⟩
  · rw [present?_itemData] at hid
    cases hpresent : input.present? "id" with
    | none =>
      rw [hpresent] at hid
      cases hid
    | some found =>
      rw [hpresent] at hid
      exact congrArg some hid
  · have hinner : transactionAddress <+: lineAddress i := List.prefix_append _ _
    refine h.textsAt_tracked hvisit (by rw [fieldVisit, htype]; rfl) hpath htext
      (by rw [lines.names_fieldVisit]; rfl) (by rw [lines.names_fieldVisit]; rfl) hinner hat ?_
    intro other hother way write hwrote hin
    rcases hwrote.anchor_of_line hin with hanchor | hcharge
    · refine .inl ⟨hanchor, fun htracked => ?_⟩
      obtain ⟨found, hfound, hinside⟩ := lines.located other hother way write hwrote i hin
      obtain rfl := Option.some.inj (hnormal.symm.trans hfound)
      obtain ⟨before, after, hfields⟩ := List.append_of_mem hmem
      have hnames := Standard.eq_of_tracked_lineId htracked
      have hown := Assembly.mem_visitsOfField_of_names lines.declared.distinct hfields hinside
        (by rw [hnames, FieldPath.names_item, lines.names]; exact List.prefix_rfl)
      rw [Assembly.mem_visits_scalar (by rw [htype]; rfl)] at hown
      exact hown
    · refine .inr ⟨lineSettlementStep.name, 0, ?_, by decide⟩
      rw [hwrote.address_eq]
      exact hcharge.trans (List.prefix_append _ _)

/-- The settlement of a line does not repeat. -/
theorem settlement_number_eq_zero (h : document.WrittenBy composed data writes) {i number : Nat}
    {write : Write} (hwrite : write ∈ writes)
    (hunder : lineAddress i ++ [(lineSettlementStep.name, number)] <+: write.address) :
    number = 0 := by
  have hline : lineAddress i <+: write.address := (List.prefix_append _ _).trans hunder
  obtain ⟨visit, hvisit, path, hwrote⟩ := h.exists_wrote hwrite ((List.prefix_append _ _).trans hline)
  rcases hwrote.anchor_of_line hline with hanchor | hcharge
  · have hdeep := Standard.length_anchor_ne_one (List.prefix_append _ _) hanchor
    rw [hwrote.address_eq, hwrote.inside_eq hdeep, hanchor, List.prefix_append_right_inj] at hunder
    obtain ⟨step, -, hstep⟩ := List.mem_map.mp (hunder.subset (List.mem_singleton_self _))
    exact (congrArg Prod.snd hstep).symm
  · have hsettlement : lineSettlementAddress i <+: write.address := by
      rw [hwrote.address_eq]
      exact hcharge.trans (List.prefix_append _ _)
    have hsame : lineAddress i ++ [(lineSettlementStep.name, number)] = lineSettlementAddress i :=
      (List.prefix_of_prefix_length_le hunder hsettlement (Nat.le_refl _)).eq_of_length rfl
    exact congrArg Prod.snd (List.singleton_inj.mp (List.append_cancel_left hsame))

/-- **The element of a line shows the line.** -/
theorem showsLine (h : document.WrittenBy composed data writes) {i : Nat} {input : Data}
    (hinput : lines.inputs[i]? = some input) {element : Element}
    (hat : document.at? (lineAddress i) = some element) :
    ShowsLine input element := by
  obtain ⟨hlt, -⟩ := List.getElem?_eq_some_iff.mp hinput
  obtain ⟨normal, hnormal, hvalid⟩ := exists_of_forall₂_getElem? lines.valid.flip hinput
  obtain ⟨settlement, hsettlement, hin⟩ := h.reads.exists_named_eq_singleton hat
    (fun write hwrite number hunder => settlement_number_eq_zero h hwrite hunder)
    (lines.exists_write_of_lt h hlt)
  refine ⟨lines.textsAt_id h hinput hat, settlement, hsettlement, ?_⟩
  have hcharges := (lines.scope hnormal hvalid).showsCharges h hin
  rw [ShowsCharges, ← present?_itemData input, ← present?_itemData input]
  exact hcharges

/-- **The elements of lines show the lines**, in order, and there are no others. -/
theorem showsLines (h : document.WrittenBy composed data writes) {transaction : Element}
    (hat : document.at? transactionAddress = some transaction) :
    List.Forall₂ ShowsLine lines.inputs (transaction.named lineName) := by
  refine h.reads.forall₂_named hat ?_ ?_ fun number input element hinput hline =>
    lines.showsLine h hinput hline
  · intro write hwrite number hunder
    obtain ⟨visit, hvisit, path, hwrote⟩ := h.exists_wrote hwrite ((List.prefix_append _ _).trans hunder)
    obtain ⟨normal, hnormal, -⟩ := lines.located visit hvisit path write hwrote number hunder
    obtain ⟨hlt, -⟩ := List.getElem?_eq_some_iff.mp hnormal
    rw [lines.valid.length_eq]
    exact hlt
  · intro number hlt
    obtain ⟨write, hwrite, hunder⟩ := lines.exists_write_of_lt h hlt
    exact ⟨write, hwrite, (List.prefix_append _ _).trans hunder⟩

end InvoiceLines

namespace Level

variable {level : Level} {composed : ComposedSchema} {input normal : Data}

/-- **The lines of a document**, as its visits have written them. -/
theorem exists_invoiceLines (hcompose : level.profile.compose = .ok composed) (hlevel : level ≠ minimum)
    (hlines : level ≠ basicWithoutLines) (hvalid : composed.schema.validate input = .ok normal) :
    ∃ lines : InvoiceLines composed normal, lines.inputs = itemsOf (input.present? "lines") := by
  obtain ⟨field, fields, hmem, htype, hgroup, hshape, hcharges, hid, htax⟩ := exists_lines hlevel hlines
  obtain ⟨hchain, hallowances, hcharges'⟩ := siblingChain_lineCharges hcompose hlevel hlines
  have hdistinct := nodup_names_mergedSchema level
  rw [← Schema.schema_of_compose hcompose] at hmem hdistinct
  obtain ⟨before, after, hfields⟩ := List.append_of_mem hmem
  have hitems := (Validation.normalizes_of_validate hvalid).array hdistinct hmem htype hshape
  have hnull : ∀ (i : Nat) item, (itemsOf (normal.present? "lines"))[i]? = some item →
      itemData item = item := by
    intro i item hitem
    obtain ⟨line, -, hline⟩ := exists_of_forall₂_getElem? hitems hitem
    rw [itemData, hline.isNull_eq_false]
    rfl
  have hbase :
      Assembly.base composed.groups "lines" (frameAfterFields composed.groups normal before []) = 0 := by
    rw [Assembly.base, hchain]
    rfl
  have hvisits : ∀ visit, visit ∈ visitsOfField composed.groups [] (FieldPath.field [] "lines")
      (normal.present? "lines") field (frameAfterFields composed.groups normal before []) ↔
        visit =
            { path := FieldPath.field [] "lines", field, value := normal.present? "lines", bindings := [] } ∨
          ∃ i item, (itemsOf (normal.present? "lines"))[i]? = some item ∧
            visit ∈ visitsOfFields composed.groups [("lines", i)]
              ((FieldPath.field [] "lines").item i) item fields [] := by
    intro visit
    rw [Assembly.mem_visits_bound htype hgroup hshape, hbase]
    refine or_congr_right (exists_congr fun i => exists_congr fun item => and_congr_right fun hitem => ?_)
    rw [hnull i item hitem, Nat.zero_add]
  refine ⟨{
    fields, path := FieldPath.field [] "lines"
    inputs := itemsOf (input.present? "lines"), normals := itemsOf (normal.present? "lines")
    declared := hcharges, id := hid, settlement := htax, names := rfl, valid := hitems
    chain_allowances := hallowances, chain_charges := hcharges'
    visited := ?_, located := ?_ }, rfl⟩
  · intro i item hitem visit hvisit
    exact Assembly.mem_visitsOfFields.mpr
      ⟨before, _, field, after, hfields, (hvisits visit).mpr (.inr ⟨i, item, hitem, hvisit⟩)⟩
  · intro visit hvisit way write hwrote number hunder
    obtain ⟨rest, hnames, hnumber⟩ := hwrote.of_line hunder
    have hfield := Assembly.mem_visitsOfField_of_names hdistinct hfields hvisit
      (by rw [hnames]; exact List.prefix_append ["lines"] _)
    rcases (hvisits visit).mp hfield with rfl | ⟨i, item, hitem, hinside⟩
    · exact absurd htype hwrote.type
    · have hbound := (Assembly.below_of_mem_visitsOfFields fields hinside).2.subset List.mem_cons_self
      rw [hwrote.lookup_of_mem hbound, Option.getD_some] at hnumber
      subst hnumber
      exact ⟨item, hitem, hinside⟩

end Level

/-! ### Documents -/

namespace Document

variable {document : Document} {composed : ComposedSchema} {data : Data} {writes : List Write}

/-- What stands below an element of the first name stands in the root. -/
theorem at?_root_of_at?_cons {name : String} {way : List (String × Nat)} {element : Element}
    (h : document.at? ((name, 0) :: way) = some element) : document.at? [(name, 0)] = some document.root := by
  rw [at?] at h
  split at h
  · rename_i hroot
    rw [at?, if_pos hroot]
    rfl
  · cases h

/-- There is one transaction, and one settlement of it, where a write enters them. -/
theorem WrittenBy.number_eq_zero (h : document.WrittenBy composed data writes) {write : Write}
    (hwrite : write ∈ writes) {name : String} {number : Nat}
    (hname : name = transactionStep.name ∨ name = settlementStep.name)
    (hmem : (name, number) ∈ write.address) : number = 0 := by
  rcases h.origin write hwrite with hguideline | ⟨visit, -, path, hwrote⟩
  · rw [hguideline] at hmem
    have hnames : name ∈ Level.guidelineAddress.map Prod.fst := List.mem_map_of_mem (f := Prod.fst) hmem
    rcases hname with rfl | rfl
    · exact absurd hnames (by decide)
    · exact absurd hnames (by decide)
  · exact hwrote.number_eq_zero hname hmem

/-- A document in which the settlement is entered has one transaction, with one settlement. -/
theorem WrittenBy.exists_settlement (h : document.WrittenBy composed data writes)
    (henters : ∃ write ∈ writes, settlementAddress <+: write.address) :
    ∃ transaction settlement, document.root.named transactionStep.name = [transaction] ∧
      document.at? transactionAddress = some transaction ∧
      transaction.named settlementStep.name = [settlement] ∧
      document.at? settlementAddress = some settlement := by
  obtain ⟨write, hwrite, hunder⟩ := henters
  have htransaction : transactionAddress <+: write.address := (List.prefix_append _ _).trans hunder
  have hsome : (document.at? transactionAddress).isSome = true := by
    rw [transactionAddress, ← List.singleton_append, h.reads.isSome_member_iff (List.cons_ne_nil _ _)]
    exact ⟨write, hwrite, 0, Nat.le_refl 0, htransaction⟩
  obtain ⟨found, hfound⟩ := Option.isSome_iff_exists.mp hsome
  have hroot := at?_root_of_at?_cons hfound
  obtain ⟨transaction, honly, hat⟩ := h.reads.exists_named_eq_singleton hroot
    (fun write hwrite number hunder => h.number_eq_zero hwrite (.inl rfl) (hunder.subset (by simp)))
    ⟨write, hwrite, htransaction⟩
  obtain ⟨settlement, hsettlement, hin⟩ := h.reads.exists_named_eq_singleton hat
    (fun write hwrite number hunder => h.number_eq_zero hwrite (.inr rfl) (hunder.subset (by simp)))
    ⟨write, hwrite, hunder⟩
  exact ⟨transaction, settlement, honly, hat, hsettlement, hin⟩

end Document

namespace Level

/-- **Documents show all allowances and charges**, as many as there are, in their order, those of
the document in its only settlement and those of each line in the settlement of the line; and they
show all lines, in their order. -/
theorem document_showsCharges {level : Level} (hlevel : level ≠ minimum) {markup : MarkupOptions}
    {renderer : Renderer} (hrenderer : Renderer.create level.profile markup = .ok renderer)
    {input normal : Data} (hvalid : renderer.validate input = .ok normal) (time : Option Instant) :
    ∃ document transaction settlement, renderer.document time normal = .ok document ∧
      document.root.named transactionStep.name = [transaction] ∧
      transaction.named settlementStep.name = [settlement] ∧
      ShowsCharges ((input.present? "settlement").getD (.obj [])) settlement ∧
      (level ≠ basicWithoutLines →
        List.Forall₂ ShowsLine (itemsOf (input.present? "lines")) (transaction.named lineName)) := by
  rw [Renderer.create] at hrenderer
  split at hrenderer
  · rename_i composed hcompose
    obtain rfl := Except.ok.inj hrenderer
    have hnormal : composed.schema.validate input = .ok normal := by
      rw [Renderer.validate] at hvalid
      split at hvalid
      · rename_i found hfound
        rw [hfound, Except.ok.inj hvalid]
      · cases hvalid
    obtain ⟨document, writes, hdocument, hwritten⟩ := exists_writtenBy hcompose hnormal time
    obtain ⟨declared, hinput⟩ := exists_invoiceSettlement hcompose hlevel hnormal
    obtain ⟨transaction, settlement, htransaction, hat, hsettlement, hin⟩ :=
      hwritten.exists_settlement (declared.exists_write hwritten)
    refine ⟨document, transaction, settlement, ?_, htransaction, hsettlement, ?_, fun hlines => ?_⟩
    · rw [Renderer.document, hdocument]
    · rw [← hinput]
      exact declared.scope.showsCharges hwritten hin
    · obtain ⟨lines, hitems⟩ := exists_invoiceLines hcompose hlevel hlines hnormal
      rw [← hitems]
      exact lines.showsLines hwritten hat
  · cases hrenderer

/-- An invoice of one line, whose price is reduced, and two allowances and a charge on the whole of it. -/
def reducedInvoice : Data :=
  .obj [
    ("document", .obj [("number", .str "R-1"), ("typeCode", .str "380"), ("issueDate", .str "2024-03-15")]),
    ("lines", .arr [.obj [
      ("id", .str "1"), ("name", .str "Desk"), ("netPrice", .str "100"), ("quantity", .str "1"),
      ("unitCode", .str "C62"), ("taxCategory", .str "S"), ("allowances", .arr [.obj [("amount", .str "2")]]),
      ("charges", .arr [.obj [("amount", .str "1.5")]]), ("lineTotal", .str "99.50")]]),
    ("agreement", .obj [
      ("seller", .obj [("name", .str "Seller"), ("countryCode", .str "DE")]),
      ("buyer", .obj [("name", .str "Buyer"), ("countryCode", .str "FR")])]),
    ("settlement", .obj [
      ("currency", .str "EUR"),
      ("allowances", .arr [.obj [("amount", .str "5"), ("taxCategory", .str "S")],
        .obj [("amount", .str "0.5"), ("taxCategory", .str "S")]]),
      ("charges", .arr [.obj [("amount", .str "3"), ("taxCategory", .str "S")]]),
      ("totals", .obj [("taxBasisTotal", .str "97"), ("grandTotal", .str "97"), ("duePayable", .str "97")])])]

theorem document_showsCharges_reducedInvoice :
    basic ≠ minimum ∧ ∃ renderer normal, Renderer.create basic.profile {} = .ok renderer ∧
      renderer.validate reducedInvoice = .ok normal ∧
        ∃ document transaction settlement, renderer.document none normal = .ok document ∧
          document.root.named transactionStep.name = [transaction] ∧
          transaction.named settlementStep.name = [settlement] ∧
          ShowsCharges ((reducedInvoice.present? "settlement").getD (.obj [])) settlement ∧
          (basic ≠ basicWithoutLines →
            List.Forall₂ ShowsLine (itemsOf (reducedInvoice.present? "lines"))
              (transaction.named lineName)) := by
  obtain ⟨composed, hcompose⟩ := exists_compose basic
  have hok : (basic.profile.mergedSchema.validate reducedInvoice).toOption.isSome = true := by decide +kernel
  cases hnormal : basic.profile.mergedSchema.validate reducedInvoice with
  | error error =>
    rw [hnormal] at hok
    cases hok
  | ok normal =>
    have hrenderer : Renderer.create basic.profile {} = .ok ⟨basic.profile, composed, {}⟩ := by
      rw [Renderer.create, hcompose]
    have hvalid : Renderer.validate ⟨basic.profile, composed, {}⟩ reducedInvoice = .ok normal := by
      rw [Renderer.validate, Schema.schema_of_compose hcompose, hnormal]
    exact ⟨by decide, _, normal, hrenderer, hvalid, document_showsCharges (by decide) hrenderer hvalid none⟩

end Level

end InvoiceXml
