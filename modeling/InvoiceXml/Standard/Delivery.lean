import InvoiceXml.Standard.Skeleton

/-!
# Delivery

Where and when goods were delivered. The element itself stands in every document.
-/

namespace InvoiceXml.Standard.Delivery

def deliveryDate : Field :=
  (date (below delivery
    "ram:ActualDeliverySupplyChainEvent/ram:OccurrenceDateTime/udt:DateTimeString")).optional.withKey "BT-72"

def basicWithoutLines : Schema := [("deliveryDate", deliveryDate)]

def core : Schema := [
  ("shipToName", (text (below delivery "ram:ShipToTradeParty/ram:Name")).optional.withKey "BT-70"),
  ("deliveryDate", deliveryDate)]

def extended : Schema := [
  ("shipFromName", (text (below delivery "ram:ShipFromTradeParty/ram:Name")).optional),
  ("deliveryDate", deliveryDate),
  ("deliveryNoteReference",
    (text (below delivery "ram:DeliveryNoteReferencedDocument/ram:IssuerAssignedID")).optional)]

end InvoiceXml.Standard.Delivery
