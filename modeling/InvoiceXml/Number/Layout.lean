import InvoiceXml.Number.Shortest

/-!
# Number layouts

How the shortest digits of a number are laid out as text. A layout says between which places of the first
digit the number is written positionally, and whether a whole number keeps a fraction of one zero. Outside
that span it is written with an exponent, whose sign is always given and whose digits have no padding.
-/

namespace InvoiceXml

/-- The decisions of a number format. -/
structure Layout where
  /-- The least and the greatest place of the first digit that are written positionally; without bounds all
  are. -/
  positional : Option (Int × Int)
  /-- Whether a whole number ends in `.0`. -/
  keepsFraction : Bool
deriving DecidableEq, Repr

namespace Layout

/-- Numbers in data texts: positional from a hundred-thousandth to below ten to the sixteenth, and always
with a fraction or an exponent, so that they do not read back as integers. -/
def dataText : Layout := ⟨some (-5, 15), true⟩

/-- Numbers in element text: never with an exponent, and whole numbers without a fraction. -/
def plain : Layout := ⟨none, false⟩

/-- The digits with a point after so many places from the left; places may be negative. -/
def positionalDigits (digits : List Char) (place : Int) (keepsFraction : Bool) : List Char :=
  if place < 0 then
    '0' :: '.' :: List.replicate (-place - 1).toNat '0' ++ digits
  else
    let count := place.toNat + 1
    if digits.length ≤ count then
      digits ++ List.replicate (count - digits.length) '0' ++ (if keepsFraction then ['.', '0'] else [])
    else digits.take count ++ '.' :: digits.drop count

/-- The first digit, the others after a point, and the place of the first digit as exponent. -/
def exponentDigits (digits : List Char) (place : Int) : List Char :=
  let mantissa := if digits.length ≤ 1 then digits else digits.take 1 ++ '.' :: digits.drop 1
  let sign := if place < 0 then '-' else '+'
  mantissa ++ 'e' :: sign :: Text.digits place.natAbs

/-- A number as text. -/
def render (layout : Layout) (x : Binary64) : String :=
  let decimal := x.shortest
  let digits := Text.digits decimal.significand
  let place := if x.mantissa = 0 then 0 else decimal.tens + (digits.length : Int) - 1
  let isPositional := match layout.positional with
    | none => true
    | some (least, greatest) => least ≤ place && place ≤ greatest
  let body := if isPositional then positionalDigits digits place layout.keepsFraction
    else exponentDigits digits place
  String.ofList (if x.negative then '-' :: body else body)

example : dataText.render (Binary64.zero true) = "-0.0" ∧ plain.render (Binary64.zero true) = "-0" := by
  decide +kernel
example : (Binary64.ofDecimal false 1 (-7)).map dataText.render = some "1e-7" := by decide +kernel
example : (Binary64.ofDecimal false 15 (-8)).map plain.render = some "0.00000015" := by decide +kernel
example : (Binary64.ofNat false (2 ^ 64)).map dataText.render = some "1.8446744073709552e+19" := by
  decide +kernel
example : (Binary64.ofNat false (10 ^ 16)).map plain.render = some "10000000000000000" := by decide +kernel
example : (Binary64.ofDecimal false 1 (-5)).map dataText.render = some "0.00001" := by decide +kernel

end Layout

end InvoiceXml
