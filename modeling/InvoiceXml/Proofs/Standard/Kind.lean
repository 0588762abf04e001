import InvoiceXml.Assembly.Plan
import InvoiceXml.Proofs.Standard.Place
import InvoiceXml.Proofs.Validator

/-!
# What the standard fields hold

Every validator of the standard profiles gives scalars, every value they fall back on is one, and
nothing is transformed (`Field.IsPlain`). Amounts are decimals with two places, and ids are texts
without limits.

What a declaration adds to a field and does not matter here is passed over
(`fieldHolds_kindAt_congr`); then the field is judged by its validator (`fieldHolds_ofValidator`) or
by its shape (`fieldHolds_of_shape`).

* **`fieldsHold_kindAt`**: so it is with every field of every standard level.
-/

namespace InvoiceXml

open Assembly (scalarText)

namespace Validator

/-- All that the validator lets pass are scalars. -/
class GivesScalars (validator : Validator) : Prop where
  isSome : ∀ value normal, validator.check value = .ok normal → (scalarText normal).isSome = true

instance (identity : String) (limits : TextLimits) : (text identity limits).GivesScalars where
  isSome value normal h := by
    obtain ⟨s, -, rfl⟩ := checkText_eq_ok h
    rfl

instance (identity : String) (scale : Option Nat) : (decimal identity scale).GivesScalars where
  isSome value normal h := by
    obtain ⟨s, rfl⟩ := exists_str_of_checkDecimal h
    rfl

instance (identity : String) : (date identity).GivesScalars where
  isSome value normal h := by
    change checkDate value = .ok normal at h
    cases value with
    | str s =>
      rw [checkDate] at h
      split at h
      · obtain rfl := Except.ok.inj h
        rfl
      · cases h
    | null | bool _ | num _ | arr _ | obj _ => cases h

instance (identity : String) (list : CodeList) : (code identity list).GivesScalars where
  isSome value normal h := by
    obtain ⟨canonical, -, rfl⟩ := checkCode_eq_ok h
    rfl

end Validator

/-- Whether a field gives scalars where it has a scalar type, without changing them. -/
structure Field.IsPlain (field : Field) : Prop where
  transform : field.transform = none
  fallback : ∀ data, field.fallback = some data → (scalarText data).isSome = true
  type : ∀ validator, field.type = .scalar validator → validator.GivesScalars

/-- What a field with the given names holds. -/
structure Field.KindAt (names : List String) (field : Field) : Prop where
  plain : field.IsPlain
  amount : names.getLast? = some "amount" → ∃ identity, field.type = .scalar (.decimal identity (some 2))
  id : names.getLast? = some "id" → ∃ identity, field.type = .scalar (.text identity)

namespace Schema

theorem keptByOverride_kindAt : KeptByOverride Field.KindAt := by
  rintro names base layer shape ⟨⟨hbaseTransform, hbaseFallback, -⟩, -, -⟩
    ⟨⟨hlayerTransform, hlayerFallback, htype⟩, hamount, hid⟩
  refine ⟨⟨?_, ?_, htype⟩, hamount, hid⟩
  · show layer.transform.or base.transform = none
    rw [hlayerTransform, hbaseTransform]
    rfl
  · intro data hdata
    rcases Option.or_eq_some_iff.mp hdata with h | ⟨-, h⟩
    · exact hlayerFallback data h
    · exact hbaseFallback data h

/-! ### The kinds of fields -/

variable {names : List String}

/-- A field and one that differs in nothing that matters here. -/
theorem fieldHolds_kindAt_congr {field other : Field} (htype : field.type = other.type)
    (htransform : field.transform = other.transform) (hfallback : field.fallback = other.fallback)
    (hshape : field.shape = other.shape) :
    FieldHolds Field.KindAt names field ↔ FieldHolds Field.KindAt names other := by
  have hkind : field.KindAt names ↔ other.KindAt names := by
    constructor
    · intro h
      obtain ⟨⟨h₁, h₂, h₃⟩, h₄, h₅⟩ := h
      exact ⟨⟨htransform ▸ h₁, hfallback ▸ h₂, htype ▸ h₃⟩, htype ▸ h₄, htype ▸ h₅⟩
    · intro h
      obtain ⟨⟨h₁, h₂, h₃⟩, h₄, h₅⟩ := h
      exact ⟨⟨htransform ▸ h₁, hfallback ▸ h₂, htype ▸ h₃⟩, htype ▸ h₄, htype ▸ h₅⟩
  rw [fieldHolds_iff_shape, fieldHolds_iff_shape, hkind, hshape]

@[simp] theorem fieldHolds_optional (field : Field) :
    FieldHolds Field.KindAt names field.optional ↔ FieldHolds Field.KindAt names field :=
  fieldHolds_kindAt_congr rfl rfl rfl rfl

@[simp] theorem fieldHolds_withKey (key : String) (field : Field) :
    FieldHolds Field.KindAt names (field.withKey key) ↔ FieldHolds Field.KindAt names field :=
  fieldHolds_kindAt_congr rfl rfl rfl rfl

@[simp] theorem fieldHolds_placedAt (xpath : String) (field : Field) :
    FieldHolds Field.KindAt names (field.placedAt xpath) ↔ FieldHolds Field.KindAt names field :=
  fieldHolds_kindAt_congr rfl rfl rfl rfl

@[simp] theorem fieldHolds_withExtra (path : String) (value : ExtraValue) (field : Field) :
    FieldHolds Field.KindAt names (field.withExtra path value) ↔ FieldHolds Field.KindAt names field :=
  fieldHolds_kindAt_congr rfl rfl rfl rfl

@[simp] theorem fieldHolds_inGroup (group : String) (field : Field) :
    FieldHolds Field.KindAt names (field.inGroup group) ↔ FieldHolds Field.KindAt names field :=
  fieldHolds_kindAt_congr rfl rfl rfl rfl

@[simp] theorem fieldHolds_after (sibling : String) (field : Field) :
    FieldHolds Field.KindAt names (field.after sibling) ↔ FieldHolds Field.KindAt names field :=
  fieldHolds_kindAt_congr rfl rfl rfl rfl

/-- A scalar is of its kind by its validator. -/
theorem fieldHolds_ofValidator {validator : Validator} [validator.GivesScalars]
    (hamount : names.getLast? = some "amount" → ∃ identity, validator = .decimal identity (some 2))
    (hid : names.getLast? = some "id" → ∃ identity, validator = .text identity) :
    FieldHolds Field.KindAt names (.ofValidator validator) := by
  rw [fieldHolds_iff_shape]
  refine ⟨⟨⟨rfl, nofun, ?_⟩, ?_, ?_⟩, nofun⟩
  · rintro _ ⟨⟩
    assumption
  · intro hlast
    obtain ⟨identity, hvalidator⟩ := hamount hlast
    exact ⟨identity, congrArg FieldType.scalar hvalidator⟩
  · intro hlast
    obtain ⟨identity, hvalidator⟩ := hid hlast
    exact ⟨identity, congrArg FieldType.scalar hvalidator⟩

@[simp] theorem fieldHolds_amount (hid : names.getLast? ≠ some "id") (identity : String) :
    FieldHolds Field.KindAt names (.ofValidator (.decimal identity (some 2))) :=
  fieldHolds_ofValidator (fun _ => ⟨identity, rfl⟩) fun h => absurd h hid

@[simp] theorem fieldHolds_id (hamount : names.getLast? ≠ some "amount") (identity : String) :
    FieldHolds Field.KindAt names (.ofValidator (.text identity)) :=
  fieldHolds_ofValidator (fun h => absurd h hamount) fun _ => ⟨identity, rfl⟩

section

variable (hamount : names.getLast? ≠ some "amount") (hid : names.getLast? ≠ some "id")

include hamount hid

/-- Under any other name a scalar is of its kind by any validator. -/
@[simp] theorem fieldHolds_ofValidator_of_ne {validator : Validator} [validator.GivesScalars] :
    FieldHolds Field.KindAt names (.ofValidator validator) :=
  fieldHolds_ofValidator (fun h => absurd h hamount) fun h => absurd h hid

/-- A field without a validator is of its kind under any other name. -/
theorem fieldHolds_of_ne {field : Field} (hplain : field.IsPlain)
    (hshape : ∀ fields, field.shape = some fields → FieldsHold Field.KindAt names fields) :
    FieldHolds Field.KindAt names field :=
  fieldHolds_iff_shape.mpr ⟨⟨hplain, fun h => absurd h hamount, fun h => absurd h hid⟩, hshape⟩

/-- A field with a shape is of its kind if all in the shape are. -/
theorem fieldHolds_of_shape {field : Field} {fields : Schema} (hplain : field.IsPlain)
    (hshape : field.shape = some fields) :
    FieldHolds Field.KindAt names field ↔ FieldsHold Field.KindAt names fields := by
  constructor
  · intro h
    exact (fieldHolds_iff_shape.mp h).2 fields hshape
  · intro h
    refine fieldHolds_of_ne hamount hid hplain fun other hother => ?_
    obtain rfl : fields = other := Option.some.inj (hshape.symm.trans hother)
    exact h

@[simp] theorem fieldHolds_ofObject (fields : Schema) :
    FieldHolds Field.KindAt names (.ofObject fields) ↔ FieldsHold Field.KindAt names fields :=
  fieldHolds_of_shape hamount hid ⟨rfl, nofun, nofun⟩ rfl

@[simp] theorem fieldHolds_ofArray (fields : Schema) :
    FieldHolds Field.KindAt names (.ofArray fields) ↔ FieldsHold Field.KindAt names fields :=
  fieldHolds_of_shape hamount hid ⟨rfl, nofun, nofun⟩ rfl

@[simp] theorem fieldHolds_ofChoice (choice : List String) :
    FieldHolds Field.KindAt names (.ofChoice choice) :=
  fieldHolds_of_ne hamount hid ⟨rfl, nofun, nofun⟩ nofun

@[simp] theorem fieldHolds_constant (value xpath : String) :
    FieldHolds Field.KindAt names (Standard.constant value xpath) :=
  fieldHolds_of_ne hamount hid ⟨rfl, by rintro _ ⟨⟩; rfl, nofun⟩ nofun

end

end Schema

/-! ### The levels -/

namespace Level

open Schema Standard

/-- What every level declares is of its kind. -/
theorem kindAt_ownSchema (level : Level) : FieldsHold Field.KindAt [] level.ownSchema := by
  cases level <;> simp (disch := decide) [ownSchema, FieldsHold, objectAnchor, arrayAnchor,
    text, amount, quantity, percent, currency, date, vatCategory, invoiceType,
    Header.minimum, Header.basicWithoutLines, Header.extended, Header.typeCode,
    Agreement.minimum, Agreement.basicWithoutLines, Agreement.core,
    Agreement.minimumSeller, Agreement.basicSeller, Agreement.coreSeller,
    Agreement.minimumBuyer, Agreement.basicBuyer, Agreement.coreBuyer,
    Agreement.sellerName, Agreement.sellerPostcode, Agreement.sellerCountry, Agreement.sellerVatId,
    Agreement.buyerName, Agreement.buyerVatId, Agreement.orderReference,
    Delivery.basicWithoutLines, Delivery.core, Delivery.extended, Delivery.deliveryDate,
    Settlement.minimum, Settlement.basicWithoutLines, Settlement.core, Settlement.extended,
    Settlement.minimumTotals, Settlement.basicTotals, Settlement.coreTotals,
    Settlement.invoiceCurrency, Settlement.paymentMeans, Settlement.iban, Settlement.taxes,
    Settlement.billingPeriod, Settlement.allowances, Settlement.charges, Settlement.paymentTerms,
    Settlement.taxBasisTotal, Settlement.grandTotal, Settlement.duePayable, Settlement.precedingInvoice,
    Charge.fields, Charge.detail, Charge.amountField, Charge.reasonField, Charge.taxFields,
    ChargeTerms.documentAllowance, ChargeTerms.documentCharge,
    ChargeTerms.lineAllowance, ChargeTerms.lineCharge,
    Line.basic, Line.core, Line.extended, Line.globalId, Line.productName, Line.grossPrice]

/-- **All standard fields are of their kind.** -/
theorem fieldsHold_kindAt (level : Level) : FieldsHold Field.KindAt [] level.profile.mergedSchema :=
  fieldsHold_mergedSchema keptByOverride_kindAt kindAt_ownSchema level

end Level

end InvoiceXml
