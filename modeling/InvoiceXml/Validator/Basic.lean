import InvoiceXml.Data.Basic

/-!
# Validators

A validator checks a value and gives its normal form, or says what is wrong with it. It is asked about null
when there is no value. Two validators count as the same when they have the same identity, whatever they
check; the name is for diagnosis.
-/

namespace InvoiceXml

/-- What is wrong with a value. -/
inductive Issue where
  | typeMismatch (expected found : String)
  | tooShort (length least : Nat)
  | tooLong (length most : Nat)
  | patternMismatch (text : String)
  | notDecimal (text : String)
  | tooManyPlaces (text : String) (scale : Nat)
  | notDate (text : String)
  | notInList (code list : String)
  | other (message : String)
deriving DecidableEq, Repr

namespace Issue

/-- The words for an issue. -/
def message : Issue → String
  | typeMismatch expected found => "Expected " ++ expected ++ " but got \"" ++ found ++ "\""
  | tooShort length least =>
    "Value length " ++ Text.natText length ++ " is less than minimum " ++ Text.natText least
  | tooLong length most => "Value length " ++ Text.natText length ++ " exceeds maximum " ++ Text.natText most
  | patternMismatch text => "Value '" ++ text ++ "' does not match pattern"
  | notDecimal text => "Value '" ++ text ++ "' is not a valid decimal"
  | tooManyPlaces text scale =>
    "Value '" ++ text ++ "' has more than " ++ Text.natText scale ++ " decimal places"
  | notDate text => "Value '" ++ text ++ "' is not a valid date (expected YYYY-MM-DD)"
  | notInList code list => "Code '" ++ code ++ "' is not in code list '" ++ list ++ "'"
  | other message => message

end Issue

/-- A check of a value that gives its normal form. -/
structure Validator where
  identity : String
  name : String
  check : Data → Except (List Issue) Data

namespace Validator

/-- Whether two validators are the same. -/
def isSame (a b : Validator) : Bool := a.identity == b.identity

/-- The answer to data of the wrong kind. -/
def mismatch (expected : String) (data : Data) : Except (List Issue) Data :=
  .error [.typeMismatch expected data.kindName]

end Validator

end InvoiceXml
