import InvoiceXml.Proofs.Schema.Composition
import InvoiceXml.Proofs.Text.Ascii
import InvoiceXml.Standard.Level

/-!
# Where the standard fields stand

The names on the way to a field of a standard level decide where its element stands: all paths start
at one root, those of a line in the element of the line, and those of an allowance or charge in the
element of that allowance or charge (`anchor`). No other path enters such an element. What is read
off a line or a charge later, its number, indicator and amount, stands where nothing else does
(`tracked`).

`Stands` puts this together for one path; a field stands so (`Field.StandsAt`) when its path does
and its extras are attributes beside it.

* **`fieldsHold_standsAt`**: every field of every standard level stands so. It is computed for what
  each level declares, and merging keeps it.
-/

namespace InvoiceXml

namespace Path

/-- Reads a path off the bytes of a text, if they are those of ASCII characters. -/
def readAscii (text : String) : Option Path :=
  if Text.isAscii text then (readChars (Text.asciiChars text)).toOption else none

theorem read_of_readAscii {text : String} {path : Path} (h : readAscii text = some path) :
    read text = .ok path := by
  rw [readAscii] at h
  split at h
  · rename_i hascii
    rw [Text.asciiChars_eq hascii] at h
    rw [read]
    cases hread : readChars text.toList with
    | error fault => simp [hread, Except.toOption] at h
    | ok found => simpa [hread, Except.toOption] using h
  · cases h

end Path

namespace Standard

/-! ### Elements on the way -/

/-- The element of an allowance or charge, of the document or of a line. -/
def chargeName : String := "ram:SpecifiedTradeAllowanceCharge"

/-- The element of a line. -/
def lineName : String := "ram:IncludedSupplyChainTradeLineItem"

def invoiceStep : Step := ⟨"rsm:CrossIndustryInvoice", none⟩

def transactionStep : Step := ⟨"rsm:SupplyChainTradeTransaction", none⟩

def settlementStep : Step := ⟨"ram:ApplicableHeaderTradeSettlement", none⟩

def lineSettlementStep : Step := ⟨"ram:SpecifiedLineTradeSettlement", none⟩

def lineStep : Step := ⟨lineName, some (.group "lines")⟩

def chargeStep (group : String) : Step := ⟨chargeName, some (.group group)⟩

/-- The element in which the field with the given names stands: that of the allowance, the charge or
the line, or else the root. -/
def anchor : List String → List Step
  | "settlement" :: "allowances" :: _ =>
    [invoiceStep, transactionStep, settlementStep, chargeStep "allowances"]
  | "settlement" :: "charges" :: _ => [invoiceStep, transactionStep, settlementStep, chargeStep "charges"]
  | "lines" :: "allowances" :: _ =>
    [invoiceStep, transactionStep, lineStep, lineSettlementStep, chargeStep "lineAllowances"]
  | "lines" :: "charges" :: _ =>
    [invoiceStep, transactionStep, lineStep, lineSettlementStep, chargeStep "lineCharges"]
  | "lines" :: _ => [invoiceStep, transactionStep, lineStep]
  | _ => [invoiceStep]

/-- The groups around the field with the given names, outermost first. -/
def groupsAround : List String → List String
  | ["document", "notes", _] => ["notes"]
  | ["settlement", "paymentMeans", _] => ["paymentMeans"]
  | ["settlement", "taxes", _] => ["taxes"]
  | ["settlement", "allowances", _] => ["allowances"]
  | ["settlement", "charges", _] => ["charges"]
  | ["lines", "allowances", _] => ["lines", "lineAllowances"]
  | ["lines", "charges", _] => ["lines", "lineCharges"]
  | "lines" :: _ :: _ => ["lines"]
  | _ => []

def indicatorPlace : List String := ["ram:ChargeIndicator", "udt:Indicator"]

def amountPlace : List String := ["ram:ActualAmount"]

def lineIdPlace : List String := ["ram:AssociatedDocumentLineDocument", "ram:LineID"]

/-- Where in its charge or line a field stands that is read off the document later. -/
def tracked : List String → Option (List String)
  | [_, _, "indicator"] => some indicatorPlace
  | [_, _, "amount"] => some amountPlace
  | ["lines", "id"] => some lineIdPlace
  | _ => none

/-- The elements that no other field enters. -/
def reserved : List (List String) := [["ram:ChargeIndicator"], amountPlace, lineIdPlace]

/-- The steps of a path inside the element in which the field stands. -/
def stepsInside (names : List String) (path : Path) : List Step := path.steps.drop (anchor names).length

/-- A path stands where the names of its field place it. -/
structure Stands (names : List String) (path : Path) : Prop where
  absolute : path.absolute = true
  anchored : path.steps = anchor names ++ stepsInside names path
  markers : ∀ marker ∈ path.markers, marker ∈ groupsAround names
  /-- The path enters no other line and no other charge. -/
  enters : ∀ step ∈ stepsInside names path, step.name ≠ chargeName ∧ step.name ≠ lineName
  /-- Inside a line or charge nothing repeats. -/
  single : (anchor names).length ≠ 1 → ∀ step ∈ stepsInside names path, step.selector = none
  /-- There is one transaction, and one settlement of it. -/
  sole : ∀ step ∈ stepsInside names path, step.name = transactionStep.name ∨ step.name = settlementStep.name →
    step.selector = none
  tracked : ∀ place, tracked names = some place →
    path.attr = none ∧ (stepsInside names path).map Step.name = place
  untracked : Standard.tracked names = none →
    ∀ place ∈ reserved, ¬place <+: (stepsInside names path).map Step.name

/-- Whether a path stands where the names of its field place it. -/
def stands (names : List String) (path : Path) : Bool :=
  path.absolute && (anchor names).isPrefixOf path.steps &&
    path.markers.all (fun marker => (groupsAround names).contains marker) &&
    (stepsInside names path).all (fun step => step.name != chargeName && step.name != lineName) &&
    ((anchor names).length == 1 || (stepsInside names path).all fun step => step.selector.isNone) &&
    (stepsInside names path).all (fun step =>
      !(step.name == transactionStep.name || step.name == settlementStep.name) || step.selector.isNone) &&
    match tracked names with
    | some place => path.attr.isNone && (stepsInside names path).map Step.name == place
    | none => reserved.all fun place => !place.isPrefixOf ((stepsInside names path).map Step.name)

theorem of_stands {names : List String} {path : Path} (h : stands names path = true) : Stands names path := by
  simp only [stands, Bool.and_eq_true] at h
  obtain ⟨⟨⟨⟨⟨⟨habsolute, hanchored⟩, hmarkers⟩, henters⟩, hsingle⟩, hsole⟩, htracked⟩ := h
  have hanchored : anchor names <+: path.steps := List.isPrefixOf_iff_prefix.mp hanchored
  refine ⟨habsolute, ?_, ?_, ?_, ?_, ?_, ?_, ?_⟩
  · rw [stepsInside]
    obtain ⟨rest, hrest⟩ := hanchored
    rw [← hrest, List.drop_left]
  · simpa using hmarkers
  · simpa using henters
  · intro hlength
    simpa [hlength] using hsingle
  · intro step hstep hname
    have hnone := List.all_eq_true.mp hsole step hstep
    rcases hname with hname | hname <;> simpa [hname] using hnone
  · intro place hplace
    rw [hplace] at htracked
    simpa using htracked
  · intro hnone place hmem hunder
    rw [hnone] at htracked
    have hnot := List.all_eq_true.mp htracked place hmem
    rw [List.isPrefixOf_iff_prefix.mpr hunder] at hnot
    cases hnot

end Standard

open Standard (Stands stands of_stands)

/-- A field stands where its names place it, and its extras are attributes beside it. -/
structure Field.StandsAt (names : List String) (field : Field) : Prop where
  own : ∀ xpath, field.xpath = some xpath → ∃ path, Path.read xpath = .ok path ∧ Stands names path
  extras : ∀ extra ∈ field.extraEntries, field.xpath.isSome = true ∧
    ∃ path, Path.read extra.1 = .ok path ∧ path.absolute = false ∧ path.steps = [] ∧ path.attr.isSome = true

/-- Whether a field stands where its names place it, and its extras are attributes beside it. -/
def Field.standsAt (names : List String) (field : Field) : Bool :=
  (match field.xpath with
    | some xpath => (Path.readAscii xpath).any (stands names)
    | none => field.extraEntries.isEmpty) &&
    field.extraEntries.all fun extra =>
      (Path.readAscii extra.1).any fun path => !path.absolute && path.steps.isEmpty && path.attr.isSome

theorem Field.of_standsAt {names : List String} {field : Field} (h : field.standsAt names = true) :
    field.StandsAt names := by
  rw [standsAt, Bool.and_eq_true] at h
  obtain ⟨hown, hextras⟩ := h
  refine ⟨?_, ?_⟩
  · intro xpath hxpath
    rw [hxpath, Option.any_eq_true] at hown
    obtain ⟨path, hpath, hstands⟩ := hown
    exact ⟨path, Path.read_of_readAscii hpath, of_stands hstands⟩
  · intro extra hmem
    have hextra := List.all_eq_true.mp hextras extra hmem
    rw [Option.any_eq_true] at hextra
    obtain ⟨path, hpath, hattribute⟩ := hextra
    rw [Bool.and_eq_true, Bool.and_eq_true] at hattribute
    obtain ⟨⟨hrelative, hsteps⟩, hattr⟩ := hattribute
    refine ⟨?_, path, Path.read_of_readAscii hpath, by simpa using hrelative, by simpa using hsteps, hattr⟩
    cases hxpath : field.xpath with
    | some xpath => rfl
    | none =>
      rw [hxpath] at hown
      rw [List.isEmpty_iff.mp hown] at hmem
      cases hmem

theorem Schema.keptByOverride_standsAt : KeptByOverride Field.StandsAt := by
  rintro names base layer shape ⟨hbaseOwn, hbaseExtras⟩ ⟨hlayerOwn, hlayerExtras⟩
  refine ⟨?_, ?_⟩
  · intro xpath hxpath
    rcases Option.or_eq_some_iff.mp hxpath with h | ⟨-, h⟩
    · exact hlayerOwn xpath h
    · exact hbaseOwn xpath h
  · intro extra hmem
    change extra ∈ (layer.extras.or base.extras).getD [] at hmem
    show (layer.xpath.or base.xpath).isSome = true ∧ _
    rw [Option.isSome_or, Bool.or_eq_true]
    cases hextras : layer.extras with
    | some extras =>
      have hlayer := hlayerExtras extra (by rw [Field.extraEntries, hextras]; simpa [hextras] using hmem)
      exact ⟨.inl hlayer.1, hlayer.2⟩
    | none =>
      have hbase := hbaseExtras extra (by rw [Field.extraEntries]; simpa [hextras] using hmem)
      exact ⟨.inr hbase.1, hbase.2⟩

namespace Level

/-- The merged schema of a level is that of what the levels up to it declare. -/
theorem mergedSchema_profile (level : Level) :
    level.profile.mergedSchema = Schema.ofLayers ((level.before ++ [level]).map ownSchema) := by
  cases level <;> rfl

/-- What every level declares holds in the merged schemas, if overriding keeps it. -/
theorem fieldsHold_mergedSchema {holds : List String → Field → Prop} (hkept : Schema.KeptByOverride holds)
    (hown : ∀ level : Level, Schema.FieldsHold holds [] level.ownSchema) (level : Level) :
    Schema.FieldsHold holds [] level.profile.mergedSchema := by
  have hlayers : ∀ (levels : List Level) (base : Schema), Schema.FieldsHold holds [] base →
      Schema.FieldsHold holds [] ((levels.map ownSchema).foldl Schema.merge base) := by
    intro levels
    induction levels with
    | nil => intro base hbase; exact hbase
    | cons first rest ih => intro base hbase; exact ih _ (Schema.fieldsHold_merge hkept hbase (hown first))
  rw [mergedSchema_profile]
  exact hlayers _ [] trivial

/-- What is found of all that the levels declare holds in the merged schemas, if overriding keeps it. -/
theorem fieldsHold_of_all {holds : List String → Field → Prop} {test : List String → Field → Bool}
    (hkept : Schema.KeptByOverride holds)
    (htest : ∀ names field, test names field = true → holds names field)
    (hall : ∀ level : Level, level.ownSchema.entries.all (fun entry => test entry.names entry.field) = true)
    (level : Level) : Schema.FieldsHold holds [] level.profile.mergedSchema := by
  refine fieldsHold_mergedSchema hkept (fun level => ?_) level
  rw [Schema.fieldsHold_iff [] []]
  intro entry hentry
  exact htest entry.names entry.field (List.all_eq_true.mp (hall level) entry hentry)

theorem standsAt_ownSchema (level : Level) :
    level.ownSchema.entries.all (fun entry => entry.field.standsAt entry.names) = true := by
  cases level <;> decide +kernel

/-- **All standard fields stand where their names place them.** -/
theorem fieldsHold_standsAt (level : Level) :
    Schema.FieldsHold Field.StandsAt [] level.profile.mergedSchema :=
  fieldsHold_of_all Schema.keptByOverride_standsAt (fun _ _ => Field.of_standsAt) standsAt_ownSchema level

end Level

end InvoiceXml
