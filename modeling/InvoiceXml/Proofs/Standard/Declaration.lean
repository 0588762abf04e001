import InvoiceXml.Proofs.Schema.Group
import InvoiceXml.Proofs.Standard.Place

/-!
# What the standard levels declare

A level with allowances and charges declares them in the settlement, as two arrays one right after
the other, and a level with lines declares them in each line once more. Each allowance or charge has
a fixed indicator and an amount that must be given. The settlement and the line have a field besides
that is always written, so they are never missing.

All this is computed from the merged schemas.

* **`exists_settlement`** and **`exists_lines`**: the declarations, field by field;
* **`siblingChain_charges`** and **`siblingChain_lineCharges`**: charges are numbered after the
  allowances, and nothing else is numbered after another group.
-/

namespace InvoiceXml

open Standard

/-! ### Kinds of declarations -/

/-- A field that always has the same text, at a path of its own. -/
structure Field.IsConstant (text : String) (field : Field) : Prop where
  type : field.type = .choice [text]
  fallback : field.fallback = some (.str text)
  path : ∃ path, field.ownPath? = some path

/-- A scalar that must be given, with a path. -/
structure Field.IsMandatory (field : Field) : Prop where
  type : ∃ validator, field.type = .scalar validator
  required : field.isRequired = true
  path : ∃ path, field.ownPath? = some path

/-- Fields without shapes, among them a fixed indicator and an amount that must be given. -/
structure Schema.IsChargeItem (indicator : String) (fields : List (String × Field)) : Prop where
  distinct : (fields.map (·.1)).Nodup
  flat : ∀ entry ∈ fields, entry.2.shape = none
  indicator : ∃ field, ("indicator", field) ∈ fields ∧ field.IsConstant indicator
  amount : ∃ field, ("amount", field) ∈ fields ∧ field.IsMandatory

/-- An array of allowances or charges, whose items are numbered by a group. -/
structure Field.IsChargeArray (group indicator : String) (field : Field) : Prop where
  type : field.type = .objectArray
  group : field.group = some group
  shape : ∃ fields, field.shape = some fields ∧ Schema.IsChargeItem indicator fields

/-- Fields that declare allowances, and right after them charges. -/
structure Schema.DeclaresCharges (allowances charges : String) (fields : List (String × Field)) : Prop where
  distinct : (fields.map (·.1)).Nodup
  adjacent : ∃ before allowance charge after,
    fields = before ++ ("allowances", allowance) :: ("charges", charge) :: after ∧
      allowance.IsChargeArray allowances "false" ∧ charge.IsChargeArray charges "true"

/-! ### Checks -/

namespace Field

/-- Whether the path of a field starts with the steps. -/
def isIn (steps : List Step) (field : Field) : Bool :=
  (field.xpath.bind Path.readAscii).any fun path => steps.isPrefixOf path.steps

theorem of_isIn {steps : List Step} {field : Field} (h : field.isIn steps = true) :
    ∃ path, field.ownPath? = some path ∧ steps <+: path.steps := by
  rw [isIn, Option.any_eq_true] at h
  obtain ⟨path, hpath, hsteps⟩ := h
  obtain ⟨xpath, hxpath, hread⟩ := Option.bind_eq_some_iff.mp hpath
  refine ⟨path, ?_, List.isPrefixOf_iff_prefix.mp hsteps⟩
  rw [ownPath?, hxpath, Option.bind_some, Path.read_of_readAscii hread]
  rfl

/-- Whether a field always has the same text, at a path of its own. -/
def isConstant (text : String) (field : Field) : Bool :=
  (match field.type with
    | .choice [member] => member == text
    | _ => false) &&
    (match field.fallback with
    | some (.str value) => value == text
    | _ => false) && field.isIn []

theorem of_isConstant {text : String} {field : Field} (h : field.isConstant text = true) :
    field.IsConstant text := by
  rw [isConstant, Bool.and_eq_true, Bool.and_eq_true] at h
  obtain ⟨⟨htype, hfallback⟩, hin⟩ := h
  obtain ⟨path, hpath, -⟩ := of_isIn hin
  refine ⟨?_, ?_, path, hpath⟩
  · split at htype
    · rename_i member hmember
      rw [hmember, eq_of_beq htype]
    · cases htype
  · split at hfallback
    · rename_i value hvalue
      rw [hvalue, eq_of_beq hfallback]
    · cases hfallback

/-- Whether a field is a scalar that must be given, with a path. -/
def isMandatory (field : Field) : Bool :=
  (match field.type with
    | .scalar _ => true
    | _ => false) && field.isRequired && field.isIn []

theorem of_isMandatory {field : Field} (h : field.isMandatory = true) : field.IsMandatory := by
  rw [isMandatory, Bool.and_eq_true, Bool.and_eq_true] at h
  obtain ⟨⟨htype, hrequired⟩, hin⟩ := h
  obtain ⟨path, hpath, -⟩ := of_isIn hin
  refine ⟨?_, hrequired, path, hpath⟩
  split at htype
  · exact ⟨_, by assumption⟩
  · cases htype

/-- Whether a field is an object with fields that pass a check. -/
def isObjectOf (check : List (String × Field) → Bool) (field : Field) : Bool :=
  match field.type, field.shape with
  | .object, some fields => check fields
  | _, _ => false

theorem of_isObjectOf {check : List (String × Field) → Bool} {field : Field}
    (h : field.isObjectOf check = true) :
    field.type = .object ∧ ∃ fields, field.shape = some fields ∧ check fields = true := by
  rw [isObjectOf] at h
  split at h
  · exact ⟨by assumption, _, by assumption, h⟩
  · cases h

/-- Whether a field is an array with a group, and with fields that pass a check. -/
def isArrayOf (group : String) (check : List (String × Field) → Bool) (field : Field) : Bool :=
  match field.type, field.shape with
  | .objectArray, some fields => field.group == some group && check fields
  | _, _ => false

theorem of_isArrayOf {group : String} {check : List (String × Field) → Bool} {field : Field}
    (h : field.isArrayOf group check = true) :
    field.type = .objectArray ∧ field.group = some group ∧
      ∃ fields, field.shape = some fields ∧ check fields = true := by
  rw [isArrayOf] at h
  split at h
  · rw [Bool.and_eq_true] at h
    exact ⟨by assumption, eq_of_beq h.1, _, by assumption, h.2⟩
  · cases h

end Field

namespace Schema

/-- Whether fields declare one with the name that passes a check. -/
def hasField (name : String) (check : Field → Bool) (fields : List (String × Field)) : Bool :=
  fields.any fun entry => entry.1 == name && check entry.2

theorem exists_of_hasField {name : String} {check : Field → Bool} {fields : List (String × Field)}
    (h : hasField name check fields = true) : ∃ field, (name, field) ∈ fields ∧ check field = true := by
  obtain ⟨⟨other, field⟩, hmem, h⟩ := List.any_eq_true.mp h
  rw [Bool.and_eq_true] at h
  obtain rfl := eq_of_beq h.1
  exact ⟨field, hmem, h.2⟩

/-- Whether fields are without shapes, among them a fixed indicator and an amount that must be given. -/
def isChargeItem (indicator : String) (fields : List (String × Field)) : Bool :=
  decide (fields.map (·.1)).Nodup && fields.all (fun entry => entry.2.shape.isNone) &&
    hasField "indicator" (Field.isConstant indicator) fields && hasField "amount" Field.isMandatory fields

theorem of_isChargeItem {indicator : String} {fields : List (String × Field)}
    (h : isChargeItem indicator fields = true) : IsChargeItem indicator fields := by
  rw [isChargeItem, Bool.and_eq_true, Bool.and_eq_true, Bool.and_eq_true] at h
  obtain ⟨⟨⟨hdistinct, hflat⟩, hindicator⟩, hamount⟩ := h
  obtain ⟨constant, hconstant, hfixed⟩ := exists_of_hasField hindicator
  obtain ⟨amount, hamount, hmandatory⟩ := exists_of_hasField hamount
  refine ⟨of_decide_eq_true hdistinct, ?_, ⟨constant, hconstant, Field.of_isConstant hfixed⟩,
    ⟨amount, hamount, Field.of_isMandatory hmandatory⟩⟩
  intro entry hentry
  exact Option.isNone_iff_eq_none.mp (List.all_eq_true.mp hflat entry hentry)

/-- Whether there are arrays of allowances and of charges, one right after the other. -/
def adjacentCharges (allowances charges : String) : List (String × Field) → Bool
  | (first, allowance) :: (second, charge) :: rest =>
    (first == "allowances" && second == "charges" && allowance.isArrayOf allowances (isChargeItem "false") &&
      charge.isArrayOf charges (isChargeItem "true")) ||
      adjacentCharges allowances charges ((second, charge) :: rest)
  | _ => false

/-- Whether fields declare allowances, and right after them charges. -/
def declaresCharges (allowances charges : String) (fields : List (String × Field)) : Bool :=
  decide (fields.map (·.1)).Nodup && adjacentCharges allowances charges fields

theorem of_isArrayOf_isChargeItem {group indicator : String} {field : Field}
    (h : field.isArrayOf group (isChargeItem indicator) = true) : field.IsChargeArray group indicator := by
  obtain ⟨htype, hgroup, fields, hshape, hitem⟩ := Field.of_isArrayOf h
  exact ⟨htype, hgroup, fields, hshape, of_isChargeItem hitem⟩

theorem of_adjacentCharges {allowances charges : String} {fields : List (String × Field)}
    (h : adjacentCharges allowances charges fields = true) :
    ∃ before allowance charge after,
      fields = before ++ ("allowances", allowance) :: ("charges", charge) :: after ∧
      allowance.IsChargeArray allowances "false" ∧ charge.IsChargeArray charges "true" := by
  induction fields with
  | nil => cases h
  | cons head rest ih =>
    obtain ⟨first, allowance⟩ := head
    cases rest with
    | nil => cases h
    | cons next rest =>
      obtain ⟨second, charge⟩ := next
      rw [adjacentCharges, Bool.or_eq_true] at h
      rcases h with h | h
      · rw [Bool.and_eq_true, Bool.and_eq_true, Bool.and_eq_true] at h
        obtain ⟨⟨⟨hfirst, hsecond⟩, hallowance⟩, hcharge⟩ := h
        obtain rfl := eq_of_beq hfirst
        obtain rfl := eq_of_beq hsecond
        exact ⟨[], allowance, charge, rest, rfl, of_isArrayOf_isChargeItem hallowance,
          of_isArrayOf_isChargeItem hcharge⟩
      · obtain ⟨before, allowance', charge', after, heq, hallowance, hcharge⟩ := ih h
        exact ⟨(first, allowance) :: before, allowance', charge', after, congrArg _ heq, hallowance, hcharge⟩

theorem of_declaresCharges {allowances charges : String} {fields : List (String × Field)}
    (h : declaresCharges allowances charges fields = true) : DeclaresCharges allowances charges fields := by
  rw [declaresCharges, Bool.and_eq_true] at h
  exact ⟨of_decide_eq_true h.1, of_adjacentCharges h.2⟩

/-- Whether a schema has a settlement with allowances and charges. -/
def declaresSettlement (schema : Schema) : Bool :=
  hasField "settlement" (Field.isObjectOf fun fields =>
    declaresCharges "allowances" "charges" fields &&
      hasField "currency"
        (fun field => field.isMandatory && field.isIn [invoiceStep, transactionStep, settlementStep])
        fields) schema

/-- Whether a schema has lines with allowances and charges. -/
def declaresLines (schema : Schema) : Bool :=
  hasField "lines" (Field.isArrayOf "lines" fun fields =>
    declaresCharges "lineAllowances" "lineCharges" fields && hasField "id" Field.isMandatory fields &&
      hasField "taxTypeCode"
        (fun field =>
          field.isConstant "VAT" && field.isIn [invoiceStep, transactionStep, lineStep, lineSettlementStep])
        fields) schema

end Schema

/-! ### Sibling chains -/

namespace Level

/-- The sibling chain of a group, as the merged schema of a level has it. -/
def chainOf (name : String) (level : Level) : List String :=
  GroupIndex.siblingChain name ⟨level.profile.mergedSchema.boundGroups⟩

variable {level : Level} {composed : ComposedSchema}

theorem siblingChain_of_compose (hcompose : level.profile.compose = .ok composed) (name : String) :
    composed.groups.siblingChain name = level.chainOf name := by
  rw [← GroupIndex.siblingChain_bare, Schema.bare_groups_of_compose hcompose, chainOf]

/-- Charges of the document are numbered after the allowances. -/
theorem siblingChain_charges (hcompose : level.profile.compose = .ok composed) (hlevel : level ≠ minimum) :
    composed.groups.siblingChain "allowances" = [] ∧
      composed.groups.siblingChain "charges" = ["allowances"] := by
  rw [siblingChain_of_compose hcompose, siblingChain_of_compose hcompose]
  cases level with
  | minimum => exact absurd rfl hlevel
  | basicWithoutLines | basic | core | extended => decide +kernel

/-- Lines are numbered from the first, and so are the allowances of each line; its charges come after them. -/
theorem siblingChain_lineCharges (hcompose : level.profile.compose = .ok composed) (hlevel : level ≠ minimum)
    (hlines : level ≠ basicWithoutLines) :
    composed.groups.siblingChain "lines" = [] ∧ composed.groups.siblingChain "lineAllowances" = [] ∧
      composed.groups.siblingChain "lineCharges" = ["lineAllowances"] := by
  rw [siblingChain_of_compose hcompose, siblingChain_of_compose hcompose, siblingChain_of_compose hcompose]
  cases level with
  | minimum => exact absurd rfl hlevel
  | basicWithoutLines => exact absurd rfl hlines
  | basic | core | extended => decide +kernel

/-! ### Settlement and lines -/

/-- **Every level above the minimum has a settlement with allowances and charges**, and in it a
currency that must be given. -/
theorem exists_settlement (hlevel : level ≠ minimum) :
    ∃ settlement fields, ("settlement", settlement) ∈ level.profile.mergedSchema ∧ settlement.type = .object ∧
      settlement.shape = some fields ∧ Schema.DeclaresCharges "allowances" "charges" fields ∧
      ∃ currency path, ("currency", currency) ∈ fields ∧ currency.IsMandatory ∧
        currency.ownPath? = some path ∧
        [invoiceStep, transactionStep, settlementStep] <+: path.steps := by
  have hdeclares : level.profile.mergedSchema.declaresSettlement = true := by
    cases level with
    | minimum => exact absurd rfl hlevel
    | basicWithoutLines | basic | core | extended => decide +kernel
  obtain ⟨settlement, hmem, hsettlement⟩ := Schema.exists_of_hasField hdeclares
  obtain ⟨htype, fields, hshape, hfields⟩ := Field.of_isObjectOf hsettlement
  rw [Bool.and_eq_true] at hfields
  obtain ⟨currency, hcurrency, h⟩ := Schema.exists_of_hasField hfields.2
  rw [Bool.and_eq_true] at h
  obtain ⟨path, hpath, hsteps⟩ := Field.of_isIn h.2
  exact ⟨settlement, fields, hmem, htype, hshape, Schema.of_declaresCharges hfields.1, currency,
    path, hcurrency, Field.of_isMandatory h.1, hpath, hsteps⟩

/-- **Every level above the basic one without lines has lines with allowances and charges**, and in
each line an id that must be given and a tax that is always the same. -/
theorem exists_lines (hlevel : level ≠ minimum) (hlines : level ≠ basicWithoutLines) :
    ∃ lines fields, ("lines", lines) ∈ level.profile.mergedSchema ∧ lines.type = .objectArray ∧
      lines.group = some "lines" ∧ lines.shape = some fields ∧
      Schema.DeclaresCharges "lineAllowances" "lineCharges" fields ∧
      (∃ id, ("id", id) ∈ fields ∧ id.IsMandatory) ∧
      ∃ tax path, ("taxTypeCode", tax) ∈ fields ∧ tax.IsConstant "VAT" ∧ tax.ownPath? = some path ∧
        [invoiceStep, transactionStep, lineStep, lineSettlementStep] <+: path.steps := by
  have hdeclares : level.profile.mergedSchema.declaresLines = true := by
    cases level with
    | minimum => exact absurd rfl hlevel
    | basicWithoutLines => exact absurd rfl hlines
    | basic | core | extended => decide +kernel
  obtain ⟨lines, hmem, hlines⟩ := Schema.exists_of_hasField hdeclares
  obtain ⟨htype, hgroup, fields, hshape, hfields⟩ := Field.of_isArrayOf hlines
  rw [Bool.and_eq_true, Bool.and_eq_true] at hfields
  obtain ⟨⟨hcharges, hid⟩, htax⟩ := hfields
  obtain ⟨id, hid, hmandatory⟩ := Schema.exists_of_hasField hid
  obtain ⟨tax, htax, h⟩ := Schema.exists_of_hasField htax
  rw [Bool.and_eq_true] at h
  obtain ⟨path, hpath, hsteps⟩ := Field.of_isIn h.2
  exact ⟨lines, fields, hmem, htype, hgroup, hshape, Schema.of_declaresCharges hcharges,
    ⟨id, hid, Field.of_isMandatory hmandatory⟩, tax, path, htax, Field.of_isConstant h.1, hpath, hsteps⟩

end Level

end InvoiceXml
