import InvoiceXml.Dictionary

/-!
# Code lists

A named set of codes in order. A code belongs to the list when it stands there, or, where the list does not
tell upper from lower case, when it differs from one that does only in the case of ASCII letters; the first
such code is its canonical spelling.
-/

namespace InvoiceXml

/-- A named set of codes. -/
structure CodeList where
  name : String
  set : Dictionary Unit := {}
  caseSensitive : Bool := true
  description : Option String := none

/-- Code lists under their names. -/
abbrev CodeLists := Dictionary CodeList

namespace CodeList

/-- The list of the given codes. -/
def ofCodes (name : String) (codes : List String) : CodeList :=
  { name, set := Dictionary.ofList (codes.map fun code => (code, ())) }

/-- The codes in order. -/
def codes (list : CodeList) : List String := list.set.names

/-- Adds a code. -/
def add (code : String) (list : CodeList) : CodeList := { list with set := list.set.insert code () }

/-- Takes a code away. -/
def remove (code : String) (list : CodeList) : CodeList := { list with set := list.set.erase code }

/-- Equality up to the case of ASCII letters. -/
def sameButCase (a b : String) : Bool := a.toList.map Char.toLower == b.toList.map Char.toLower

/-- The spelling of a code in the list. -/
def canonical? (code : String) (list : CodeList) : Option String :=
  if list.caseSensitive then if list.set.contains code then some code else none
  else list.codes.find? (sameButCase code)

/-- Whether a code belongs to the list. -/
def isValid (code : String) (list : CodeList) : Bool := (list.canonical? code).isSome

/-- The document types of commercial invoices. -/
def invoiceTypes : CodeList :=
  { ofCodes "invoice-type" ["380", "381", "383", "384", "386", "389", "751"] with
    description := some "UNTDID 1001 invoice document types" }

/-- The categories of value added tax. -/
def vatCategories : CodeList :=
  { ofCodes "vat-category" ["S", "Z", "E", "AE", "K", "G", "O", "L", "M"] with
    description := some "UNTDID 5305 VAT categories" }

example : vatCategories.codes = ["AE", "E", "G", "K", "L", "M", "O", "S", "Z"] := by decide +kernel
example : ({ ofCodes "u" ["hur", "HUR"] with caseSensitive := false }).canonical? "Hur" = some "HUR" := by
  decide +kernel

end CodeList

namespace CodeLists

/-- Registers a list under its name. -/
def register (list : CodeList) (lists : CodeLists) : CodeLists := lists.insert list.name list

/-- Whether the code belongs to the list of the name; a missing list has no codes. -/
def validate (name code : String) (lists : CodeLists) : Bool :=
  match lists.find? name with
  | some list => list.isValid code
  | none => false

end CodeLists

end InvoiceXml
