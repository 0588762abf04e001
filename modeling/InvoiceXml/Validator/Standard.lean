import InvoiceXml.Calendar.Date
import InvoiceXml.CodeList
import InvoiceXml.Pattern.Reader
import InvoiceXml.Text.Digit
import InvoiceXml.Text.Quoted
import InvoiceXml.Validator.Basic

/-!
# The standard validators

Texts with limits on length and form, decimal numbers with a fixed count of places, dates, truth values, and
codes of a list. A decimal number may be given as a number or as a text and becomes a text; a date becomes
its eight digits; a truth value may be given as a text of either case.
-/

namespace InvoiceXml

/-- Limits on a text; its length counts characters. -/
structure TextLimits where
  least : Option Nat := none
  most : Option Nat := none
  pattern : Option Pattern := none

namespace TextLimits

/-- Everything that is wrong with a text. -/
def issues (limits : TextLimits) (text : String) : List Issue :=
  let length := text.length
  ((limits.least.filter (length < ·)).map (Issue.tooShort length)).toList ++
    ((limits.most.filter (· < length)).map (Issue.tooLong length)).toList ++
    ((limits.pattern.filter fun p => !p.accepts text.toList).map fun _ => Issue.patternMismatch text).toList

end TextLimits

namespace Validator

/-- The check of texts. -/
def checkText (limits : TextLimits) : Data → Except (List Issue) Data
  | .str text =>
    match limits.issues text with
    | [] => .ok (.str text)
    | issues => .error issues
  | data => mismatch "string" data

/-- Texts within limits. -/
def text (identity : String) (limits : TextLimits := {}) : Validator :=
  ⟨identity, "string", checkText limits⟩

/-- A number of digits of any script, at least one. -/
def isDigits (cs : List Char) : Bool := !cs.isEmpty && cs.all Text.isDecimalDigit

/-- The digits after the point of a decimal: an optional minus, digits, and possibly a point with more
digits. Without a point there are none. -/
def fractionOf? (cs : List Char) : Option (List Char) :=
  let unsigned := match cs with
    | '-' :: rest => rest
    | cs => cs
  match Text.cutAtFirst '.' unsigned with
  | none => if isDigits unsigned then some [] else none
  | some (whole, fraction) => if isDigits whole && isDigits fraction then some fraction else none

/-- The size of a text in bytes of UTF-8. -/
def byteSize (cs : List Char) : Nat := cs.foldl (fun size c => size + c.utf8Size) 0

/-- The check of the text of a decimal: its fraction is filled up with zeros to the scale, and must not be
larger. The size of a fraction is counted in bytes, which for ASCII digits is their number. -/
def checkDecimalText (scale : Option Nat) (text : String) : Except (List Issue) Data :=
  match fractionOf? text.toList with
  | none => .error [.notDecimal text]
  | some fraction =>
    match scale with
    | none => .ok (.str text)
    | some scale =>
      let places := byteSize fraction
      if scale < places then .error [.tooManyPlaces text scale]
      else
        let point := if places = 0 ∧ 0 < scale then ['.'] else []
        .ok (.str (String.ofList (text.toList ++ point ++ List.replicate (scale - places) '0')))

/-- The check of decimals. -/
def checkDecimal (scale : Option Nat) : Data → Except (List Issue) Data
  | .num n => checkDecimalText scale n.plainText
  | .str s => checkDecimalText scale (Text.trimmed s)
  | data => mismatch "decimal" data

/-- Decimal numbers, with a fixed count of places if a scale is given. -/
def decimal (identity : String) (scale : Option Nat := none) : Validator :=
  ⟨identity, "decimal", checkDecimal scale⟩

/-- The check of dates. -/
def checkDate : Data → Except (List Issue) Data
  | .str text =>
    match Date.read? text with
    | some date => .ok (.str date.compact)
    | none => .error [.notDate text]
  | data => mismatch "date" data

/-- Dates. -/
def date (identity : String) : Validator := ⟨identity, "date", checkDate⟩

/-- The check of truth values. -/
def checkBoolean : Data → Except (List Issue) Data
  | .bool b => .ok (.bool b)
  | .str s =>
    if CodeList.sameButCase s "true" then .ok (.bool true)
    else if CodeList.sameButCase s "false" then .ok (.bool false)
    else mismatch "boolean" (.str s)
  | data => mismatch "boolean" data

/-- Truth values. -/
def boolean (identity : String) : Validator := ⟨identity, "boolean", checkBoolean⟩

/-- The check of codes of a list, which gives their canonical spelling. -/
def checkCode (list : CodeList) : Data → Except (List Issue) Data
  | .str code =>
    match list.canonical? code with
    | some canonical => .ok (.str canonical)
    | none => .error [.notInList code list.name]
  | data => mismatch "string" data

/-- Codes of a list. -/
def code (identity : String) (list : CodeList) : Validator := ⟨identity, list.name, checkCode list⟩

example : (checkDecimal (some 2) (.str " -7.5 ")).toOption.map Data.kindName = some "string" := by
  decide +kernel
example : fractionOf? "1.".toList = none ∧ fractionOf? "-12.5".toList = some ['5'] := by decide +kernel

end Validator

/-- Validators under the names by which definitions mention them. -/
abbrev Validators := Dictionary Validator

namespace Validators

/-- Registers a validator. -/
def register (name : String) (validator : Validator) (validators : Validators) : Validators :=
  validators.insert name validator

/-- The validators that are always there: plain texts, decimals with no, two or four places, dates and truth
values. -/
def standard : Validators :=
  Dictionary.ofList [
    ("string", .text "string"), ("decimal", .decimal "decimal"), ("amount", .decimal "amount" (some 2)),
    ("quantity", .decimal "quantity" (some 4)), ("percentage", .decimal "percentage" (some 2)),
    ("date", .date "date"), ("boolean", .boolean "boolean")]

/-- The validators that the files of users may name: the standard ones and those of two code lists. -/
def withCodeLists : Validators :=
  (standard.register "invoice-type" (.code "invoice-type" CodeList.invoiceTypes)).register "vat-category"
    (.code "vat-category" CodeList.vatCategories)

/-- What is registered, in words. -/
def describe (validators : Validators) : String :=
  "ValidatorRegistry \x7b validators: " ++ Text.quotedList validators.names ++ " \x7d"

end Validators

end InvoiceXml
