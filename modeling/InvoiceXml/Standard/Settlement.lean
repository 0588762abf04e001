import InvoiceXml.Standard.Charge

/-!
# Settlement

Currency, payment, taxes, allowances and charges, and totals of the whole document.
-/

namespace InvoiceXml.Standard.Settlement

def invoiceCurrency : Field := (currency (below settlement "ram:InvoiceCurrencyCode")).withKey "BT-5"

/-! ### Totals -/

def taxBasisTotal : Field := (amount (below summation "ram:TaxBasisTotalAmount")).withKey "BT-109"

def grandTotal : Field := (amount (below summation "ram:GrandTotalAmount")).withKey "BT-112"

def duePayable : Field := (amount (below summation "ram:DuePayableAmount")).withKey "BT-115"

def minimumTotals : Schema := [
  ("taxBasisTotal", taxBasisTotal),
  ("taxTotal", (amount (below summation "ram:TaxTotalAmount")).optional.withKey "BT-110"),
  ("taxTotalCurrency", (currency (below summation "ram:TaxTotalAmount/@currencyID")).optional),
  ("grandTotal", grandTotal),
  ("duePayable", duePayable)]

def basicTotals : Schema := [
  ("lineTotal", (amount (below summation "ram:LineTotalAmount")).optional.withKey "BT-106"),
  ("chargeTotal", (amount (below summation "ram:ChargeTotalAmount")).optional.withKey "BT-108"),
  ("allowanceTotal", (amount (below summation "ram:AllowanceTotalAmount")).optional.withKey "BT-107"),
  ("taxBasisTotal", taxBasisTotal),
  ("prepaidAmount", (amount (below summation "ram:TotalPrepaidAmount")).optional.withKey "BT-113"),
  ("duePayable", duePayable)]

def coreTotals : Schema := [
  ("roundingAmount", (amount (below summation "ram:RoundingAmount")).optional.withKey "BT-114"),
  ("grandTotal", grandTotal)]

/-! ### Payment and taxes -/

/-- One way of paying. -/
def means : String := below settlement "ram:SpecifiedTradeSettlementPaymentMeans[paymentMeans]"

def iban : Field :=
  (text (below means "ram:PayeePartyCreditorFinancialAccount/ram:IBANID")).optional.withKey "BT-84"

def paymentMeans : Field :=
  ((Field.ofArray [
    ("typeCode", (text (below means "ram:TypeCode")).withKey "BT-81"),
    ("iban", iban)]).inGroup "paymentMeans").withKey "BG-16"

/-- The tax of one category. -/
def tax : String := below settlement "ram:ApplicableTradeTax[taxes]"

def taxes : Field :=
  ((Field.ofArray [
    ("calculatedAmount", (amount (below tax "ram:CalculatedAmount")).withKey "BT-117"),
    ("typeCode", constant "VAT" (below tax "ram:TypeCode")),
    ("exemptionReason", (text (below tax "ram:ExemptionReason")).optional.withKey "BT-120"),
    ("basisAmount", (amount (below tax "ram:BasisAmount")).withKey "BT-116"),
    ("category", (vatCategory (below tax "ram:CategoryCode")).withKey "BT-118"),
    ("exemptionReasonCode", (text (below tax "ram:ExemptionReasonCode")).optional.withKey "BT-121"),
    ("rate", (percent (below tax "ram:RateApplicablePercent")).optional.withKey "BT-119")]).inGroup
      "taxes").withKey "BG-23"

def billingPeriod : Field :=
  (Field.ofObject [
    ("start",
      (date (below settlement
        "ram:BillingSpecifiedPeriod/ram:StartDateTime/udt:DateTimeString")).optional.withKey
        "BT-73"),
    ("end",
      (date (below settlement
        "ram:BillingSpecifiedPeriod/ram:EndDateTime/udt:DateTimeString")).optional.withKey
        "BT-74")]).withKey "BG-14"

def paymentTerms : Field :=
  Field.ofObject [
    ("description",
      (text (below settlement "ram:SpecifiedTradePaymentTerms/ram:Description")).optional.withKey "BT-20"),
    ("dueDate",
      (date (below settlement
        "ram:SpecifiedTradePaymentTerms/ram:DueDateDateTime/udt:DateTimeString")).optional.withKey "BT-9")]

def precedingInvoice : Field :=
  (Field.ofObject [
    ("reference",
      (text (below settlement
        "ram:InvoiceReferencedDocument/ram:IssuerAssignedID")).optional.withKey "BT-25"),
    ("issueDate",
      (date (below settlement
        "ram:InvoiceReferencedDocument/ram:FormattedIssueDateTime/qdt:DateTimeString")).optional.withKey
        "BT-26")]).withKey "BG-3"

/-! ### Allowances and charges -/

def allowances : Field :=
  ((Field.ofArray (Charge.fields (Charge.family settlement "allowances") false .documentAllowance)).inGroup
    "allowances").withKey "BG-20"

def charges : Field :=
  (((Field.ofArray (Charge.fields (Charge.family settlement "charges") true .documentCharge)).inGroup
    "charges").after "allowances").withKey "BG-21"

/-! ### Levels -/

def minimum : Schema := [
  ("currency", invoiceCurrency),
  ("totals", (Field.ofObject minimumTotals).withKey "BG-22")]

def basicWithoutLines : Schema := [
  ("paymentReference", (text (below settlement "ram:PaymentReference")).optional.withKey "BT-83"),
  ("currency", invoiceCurrency),
  ("paymentMeans", paymentMeans),
  ("taxes", taxes),
  ("billingPeriod", billingPeriod),
  ("allowances", allowances),
  ("charges", charges),
  ("paymentTerms", paymentTerms),
  ("totals", Field.ofObject basicTotals),
  ("precedingInvoice", precedingInvoice)]

def core : Schema := [
  ("vatAccountingCurrency", (text (below settlement "ram:TaxCurrencyCode")).optional.withKey "BT-6"),
  ("currency", invoiceCurrency),
  ("paymentMeans", Field.ofArray [
    ("information", (text (below means "ram:Information")).optional.withKey "BT-82"),
    ("iban", iban)]),
  ("allowances", Field.ofArray (Charge.detail (Charge.family settlement "allowances") .documentAllowance)),
  ("charges", Field.ofArray (Charge.detail (Charge.family settlement "charges") .documentCharge)),
  ("totals", Field.ofObject coreTotals),
  ("receivableAccount",
    (text (below settlement
      "ram:ReceivableSpecifiedTradeAccountingAccount/ram:ID")).optional.withKey "BT-19")]

def extended : Schema := [
  ("currency", invoiceCurrency),
  ("invoiceeName", (text (below settlement "ram:InvoiceeTradeParty/ram:Name")).optional),
  ("paymentMeans", arrayAnchor)]

end InvoiceXml.Standard.Settlement
