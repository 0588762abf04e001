import InvoiceXml.Standard.Skeleton

/-!
# Allowances and charges

Allowances and charges share one element, told apart by an indicator. Each is a family of its own group, so
the same fields are declared for every family, with the business terms of that family.
-/

namespace InvoiceXml.Standard

/-- The business terms of a family of allowances or charges. -/
structure ChargeTerms where
  amount : String
  reason : String
  reasonCode : String
  percentage : String
  basis : String
  /-- The terms of the tax category and rate; families of lines have none. -/
  tax : Option (String × String) := none

namespace ChargeTerms

def documentAllowance : ChargeTerms where
  amount := "BT-92"
  reason := "BT-97"
  reasonCode := "BT-98"
  percentage := "BT-94"
  basis := "BT-93"
  tax := some ("BT-95", "BT-96")

def documentCharge : ChargeTerms where
  amount := "BT-99"
  reason := "BT-104"
  reasonCode := "BT-105"
  percentage := "BT-101"
  basis := "BT-100"
  tax := some ("BT-102", "BT-103")

def lineAllowance : ChargeTerms where
  amount := "BT-136"
  reason := "BT-139"
  reasonCode := "BT-140"
  percentage := "BT-138"
  basis := "BT-137"

def lineCharge : ChargeTerms where
  amount := "BT-141"
  reason := "BT-144"
  reasonCode := "BT-145"
  percentage := "BT-143"
  basis := "BT-142"

end ChargeTerms

namespace Charge

/-- The element of a family below another element. -/
def family (base group : String) : String := below base ("ram:SpecifiedTradeAllowanceCharge[" ++ group ++ "]")

def amountField (element : String) (terms : ChargeTerms) : Field :=
  (amount (below element "ram:ActualAmount")).withKey terms.amount

def reasonField (element : String) (terms : ChargeTerms) : Field :=
  (text (below element "ram:Reason")).optional.withKey terms.reason

/-- The tax category and rate of an allowance or charge of the whole document. -/
def taxFields (element : String) : Option (String × String) → Schema
  | none => []
  | some (category, rate) => [
    ("taxTypeCode", constant "VAT" (below element "ram:CategoryTradeTax/ram:TypeCode")),
    ("taxCategory", (vatCategory (below element "ram:CategoryTradeTax/ram:CategoryCode")).withKey category),
    ("taxRate",
      (percent (below element "ram:CategoryTradeTax/ram:RateApplicablePercent")).optional.withKey rate)]

/-- Indicator, amount, reason, and for the whole document the tax. -/
def fields (element : String) (isCharge : Bool) (terms : ChargeTerms) : Schema :=
  [("indicator",
      constant (if isCharge then "true" else "false") (below element "ram:ChargeIndicator/udt:Indicator")),
    ("amount", amountField element terms),
    ("reason", reasonField element terms)] ++ taxFields element terms.tax

/-- Percentage, basis and reason code, placed around the amount and the reason of a lower level. -/
def detail (element : String) (terms : ChargeTerms) : Schema := [
  ("percentage", (percent (below element "ram:CalculationPercent")).optional.withKey terms.percentage),
  ("basisAmount", (amount (below element "ram:BasisAmount")).optional.withKey terms.basis),
  ("amount", amountField element terms),
  ("reasonCode", (text (below element "ram:ReasonCode")).optional.withKey terms.reasonCode),
  ("reason", reasonField element terms)]

end Charge

end InvoiceXml.Standard
