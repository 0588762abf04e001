import InvoiceXml.Standard.Charge

/-!
# Invoice lines

What is invoiced, line by line: product, price, quantity, tax, and the allowances and charges of the line.
-/

namespace InvoiceXml.Standard.Line

def lineDocument : String := below line "ram:AssociatedDocumentLineDocument"

def product : String := below line "ram:SpecifiedTradeProduct"

def lineAgreement : String := below line "ram:SpecifiedLineTradeAgreement"

def lineSettlement : String := below line "ram:SpecifiedLineTradeSettlement"

/-- The quantity that is invoiced. -/
def billed : String := below line "ram:SpecifiedLineTradeDelivery/ram:BilledQuantity"

def globalId : Field := (text (below product "ram:GlobalID")).optional.withKey "BT-157"

def productName : Field := (text (below product "ram:Name")).withKey "BT-153"

def grossPrice : Field :=
  (amount (below lineAgreement "ram:GrossPriceProductTradePrice/ram:ChargeAmount")).optional.withKey "BT-148"

def allowances : String := Charge.family lineSettlement "lineAllowances"

def charges : String := Charge.family lineSettlement "lineCharges"

def basic : Schema := [
  ("id", (text (below lineDocument "ram:LineID")).withKey "BT-126"),
  ("note", (text (below lineDocument "ram:IncludedNote/ram:Content")).optional.withKey "BT-127"),
  ("globalId", globalId),
  ("globalIdScheme", (text (below product "ram:GlobalID/@schemeID")).optional.withKey "BT-157-1"),
  ("name", productName),
  ("grossPrice", grossPrice),
  ("netPrice",
    (amount (below lineAgreement "ram:NetPriceProductTradePrice/ram:ChargeAmount")).withKey "BT-146"),
  ("quantity", (quantity billed).withKey "BT-129"),
  ("unitCode", (text (below billed "@unitCode")).withKey "BT-130"),
  ("taxTypeCode", constant "VAT" (below lineSettlement "ram:ApplicableTradeTax/ram:TypeCode")),
  ("taxCategory",
    (vatCategory (below lineSettlement "ram:ApplicableTradeTax/ram:CategoryCode")).withKey "BT-151"),
  ("taxRate",
    (percent (below lineSettlement "ram:ApplicableTradeTax/ram:RateApplicablePercent")).optional.withKey
      "BT-152"),
  ("allowances",
    ((Field.ofArray (Charge.fields allowances false .lineAllowance)).inGroup
      "lineAllowances").withKey "BG-27"),
  ("charges",
    (((Field.ofArray (Charge.fields charges true .lineCharge)).inGroup "lineCharges").after
      "lineAllowances").withKey "BG-28"),
  ("lineTotal",
    (amount (below lineSettlement
      "ram:SpecifiedTradeSettlementLineMonetarySummation/ram:LineTotalAmount")).withKey "BT-131")]

def core : Schema := [
  ("sellerAssignedId", (text (below product "ram:SellerAssignedID")).optional.withKey "BT-155"),
  ("buyerAssignedId", (text (below product "ram:BuyerAssignedID")).optional.withKey "BT-156"),
  ("name", productName),
  ("description", (text (below product "ram:Description")).optional.withKey "BT-154"),
  ("orderLineReference",
    (text (below lineAgreement "ram:BuyerOrderReferencedDocument/ram:LineID")).optional.withKey "BT-132"),
  ("grossPrice", grossPrice),
  ("billingPeriod", (Field.ofObject [
    ("start",
      (date (below lineSettlement
        "ram:BillingSpecifiedPeriod/ram:StartDateTime/udt:DateTimeString")).optional.withKey "BT-134"),
    ("end",
      (date (below lineSettlement
        "ram:BillingSpecifiedPeriod/ram:EndDateTime/udt:DateTimeString")).optional.withKey
        "BT-135")]).withKey "BG-26"),
  ("allowances", Field.ofArray (Charge.detail allowances .lineAllowance)),
  ("charges", Field.ofArray (Charge.detail charges .lineCharge))]

def extended : Schema := [
  ("productId", (text (below product "ram:ID")).optional),
  ("globalId", globalId),
  ("originCountry", (text (below product "ram:OriginTradeCountry/ram:ID")).optional.withKey "BT-159"),
  ("grossPrice", grossPrice)]

end InvoiceXml.Standard.Line
