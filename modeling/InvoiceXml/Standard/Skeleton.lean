import InvoiceXml.Profile
import InvoiceXml.Validator.Standard

/-!
# The skeleton of a cross industry invoice

The elements below which all standard profiles place their values, and the kinds of fields they declare.
Elements that repeat carry their group marker in the path.
-/

namespace InvoiceXml.Standard

/-! ### Elements -/

/-- An element or attribute below another. -/
def below (base rest : String) : String := base ++ "/" ++ rest

def invoice : String := "/rsm:CrossIndustryInvoice"

/-- Where documents name the guideline they follow. -/
def guideline : String :=
  below invoice "rsm:ExchangedDocumentContext/ram:GuidelineSpecifiedDocumentContextParameter/ram:ID"

def header : String := below invoice "rsm:ExchangedDocument"

def transaction : String := below invoice "rsm:SupplyChainTradeTransaction"

/-- One invoice line; the lines are the group of that name. -/
def line : String := below transaction "ram:IncludedSupplyChainTradeLineItem[lines]"

def agreement : String := below transaction "ram:ApplicableHeaderTradeAgreement"

def seller : String := below agreement "ram:SellerTradeParty"

def buyer : String := below agreement "ram:BuyerTradeParty"

def delivery : String := below transaction "ram:ApplicableHeaderTradeDelivery"

def settlement : String := below transaction "ram:ApplicableHeaderTradeSettlement"

def summation : String := below settlement "ram:SpecifiedTradeSettlementHeaderMonetarySummation"

/-- The root of the documents of all standard profiles. -/
def documentRoot : DocumentRoot where
  namespaces := [
    ("rsm", "urn:un:unece:uncefact:data:standard:CrossIndustryInvoice:100"),
    ("qdt", "urn:un:unece:uncefact:data:standard:QualifiedDataType:100"),
    ("ram", "urn:un:unece:uncefact:data:standard:ReusableAggregateBusinessInformationEntity:100"),
    ("xs", "http://www.w3.org/2001/XMLSchema"),
    ("udt", "urn:un:unece:uncefact:data:standard:UnqualifiedDataType:100")]
  contextPath := some guideline

/-! ### Kinds of fields -/

/-- A text. -/
def text (xpath : String) : Field := (Field.ofValidator (.text xpath)).placedAt xpath

/-- An amount of money, with two places. -/
def amount (xpath : String) : Field := (Field.ofValidator (.decimal xpath (some 2))).placedAt xpath

/-- A quantity, with four places. -/
def quantity (xpath : String) : Field := (Field.ofValidator (.decimal xpath (some 4))).placedAt xpath

/-- A rate in percent, with two places. -/
def percent (xpath : String) : Field := (Field.ofValidator (.decimal xpath (some 2))).placedAt xpath

/-- A currency code of three characters. -/
def currency (xpath : String) : Field :=
  (Field.ofValidator (.text xpath { least := some 3, most := some 3 })).placedAt xpath

/-- A date, with the code of its format beside it. -/
def date (xpath : String) : Field :=
  ((Field.ofValidator (.date xpath)).placedAt xpath).withExtra "@format" (.text "102")

/-- A category of value added tax. -/
def vatCategory (xpath : String) : Field :=
  (Field.ofValidator (.code xpath CodeList.vatCategories)).placedAt xpath

/-- A type of invoice document. -/
def invoiceType (xpath : String) : Field := (Field.ofChoice CodeList.invoiceTypes.codes).placedAt xpath

/-- A fixed text that data cannot change. -/
def constant (value xpath : String) : Field :=
  { ((Field.ofChoice [value]).optional).placedAt xpath with fallback := some (.str value) }

/-- An object declared again without fields, so that others can be placed before it. -/
def objectAnchor : Field := Field.ofObject []

/-- An array declared again without fields, so that others can be placed before it. -/
def arrayAnchor : Field := Field.ofArray []

end InvoiceXml.Standard
