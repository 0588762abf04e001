import InvoiceXml.Standard.Skeleton

/-!
# Parties and references

Seller, buyer, and the orders and contracts that an invoice refers to. The lowest level names the parties,
the next adds their addresses, and the European core their contacts and electronic addresses.
-/

namespace InvoiceXml.Standard.Agreement

def orderReference : Field :=
  (text (below agreement "ram:BuyerOrderReferencedDocument/ram:IssuerAssignedID")).optional.withKey "BT-13"

def sellerName : Field := (text (below seller "ram:Name")).withKey "BT-27"

def sellerCountry : Field := (text (below seller "ram:PostalTradeAddress/ram:CountryID")).withKey "BT-40"

def sellerPostcode : Field :=
  (text (below seller "ram:PostalTradeAddress/ram:PostcodeCode")).optional.withKey "BT-38"

def sellerVatId : Field :=
  ((text (below seller "ram:SpecifiedTaxRegistration/ram:ID")).optional.withKey "BT-31").withExtra
    "@schemeID" (.text "VA")

def buyerName : Field := (text (below buyer "ram:Name")).withKey "BT-44"

def buyerVatId : Field :=
  ((text (below buyer "ram:SpecifiedTaxRegistration/ram:ID")).optional.withKey "BT-48").withExtra
    "@schemeID" (.text "VA")

def minimumSeller : Schema := [
  ("name", sellerName),
  ("legalId", (text (below seller "ram:SpecifiedLegalOrganization/ram:ID")).optional.withKey "BT-30"),
  ("legalIdScheme",
    (text (below seller "ram:SpecifiedLegalOrganization/ram:ID/@schemeID")).optional.withKey "BT-30-1"),
  ("countryCode", sellerCountry),
  ("vatId", sellerVatId)]

def minimumBuyer : Schema := [
  ("name", buyerName),
  ("legalId", (text (below buyer "ram:SpecifiedLegalOrganization/ram:ID")).optional.withKey "BT-47")]

def minimum : Schema := [
  ("buyerReference", (text (below agreement "ram:BuyerReference")).optional.withKey "BT-10"),
  ("seller", (Field.ofObject minimumSeller).withKey "BG-4"),
  ("buyer", (Field.ofObject minimumBuyer).withKey "BG-7"),
  ("orderReference", orderReference)]

def basicSeller : Schema := [
  ("id", (text (below seller "ram:ID")).optional.withKey "BT-29"),
  ("name", sellerName),
  ("postcode", sellerPostcode),
  ("addressLine1", (text (below seller "ram:PostalTradeAddress/ram:LineOne")).optional.withKey "BT-35"),
  ("city", (text (below seller "ram:PostalTradeAddress/ram:CityName")).optional.withKey "BT-37"),
  ("countryCode", sellerCountry)]

def basicBuyer : Schema := [
  ("id", (text (below buyer "ram:ID")).optional.withKey "BT-46"),
  ("name", buyerName),
  ("postcode", (text (below buyer "ram:PostalTradeAddress/ram:PostcodeCode")).optional.withKey "BT-53"),
  ("addressLine1", (text (below buyer "ram:PostalTradeAddress/ram:LineOne")).optional.withKey "BT-50"),
  ("city", (text (below buyer "ram:PostalTradeAddress/ram:CityName")).optional.withKey "BT-52"),
  ("countryCode", (text (below buyer "ram:PostalTradeAddress/ram:CountryID")).withKey "BT-55"),
  ("vatId", buyerVatId)]

def basicWithoutLines : Schema := [
  ("seller", Field.ofObject basicSeller),
  ("buyer", Field.ofObject basicBuyer),
  ("contractReference",
    (text (below agreement "ram:ContractReferencedDocument/ram:IssuerAssignedID")).optional.withKey "BT-12")]

def coreSeller : Schema := [
  ("tradingName",
    (text (below seller "ram:SpecifiedLegalOrganization/ram:TradingBusinessName")).optional.withKey "BT-28"),
  ("contactName", (text (below seller "ram:DefinedTradeContact/ram:PersonName")).optional.withKey "BT-41"),
  ("contactPhone",
    (text (below seller
      "ram:DefinedTradeContact/ram:TelephoneUniversalCommunication/ram:CompleteNumber")).optional.withKey
      "BT-42"),
  ("contactEmail",
    (text (below seller
      "ram:DefinedTradeContact/ram:EmailURIUniversalCommunication/ram:URIID")).optional.withKey
      "BT-43"),
  ("postcode", sellerPostcode),
  ("electronicAddress",
    (text (below seller "ram:URIUniversalCommunication/ram:URIID")).optional.withKey "BT-34"),
  ("electronicAddressScheme",
    (text (below seller "ram:URIUniversalCommunication/ram:URIID/@schemeID")).optional.withKey "BT-34-1"),
  ("vatId", sellerVatId)]

def coreBuyer : Schema := [
  ("electronicAddress",
    (text (below buyer "ram:URIUniversalCommunication/ram:URIID")).optional.withKey "BT-49"),
  ("electronicAddressScheme",
    (text (below buyer "ram:URIUniversalCommunication/ram:URIID/@schemeID")).optional.withKey "BT-49-1"),
  ("vatId", buyerVatId)]

def core : Schema := [
  ("seller", Field.ofObject coreSeller),
  ("buyer", Field.ofObject coreBuyer),
  ("sellerOrderReference",
    (text (below agreement
      "ram:SellerOrderReferencedDocument/ram:IssuerAssignedID")).optional.withKey "BT-14"),
  ("orderReference", orderReference)]

end InvoiceXml.Standard.Agreement
