import InvoiceXml.Number.Binary64
import InvoiceXml.Text.Numeral

/-!
# The fewest digits that read back

Every decimal close enough to a binary number rounds to it. `shortest` finds the one with the fewest digits,
and of those the nearest to the exact value (of two equally near, the one with the even last digit). For
each count of digits only the two neighbours of the value on that decimal grid can lie in the interval that
rounds to it, so the first grid with a hit decides.
-/

namespace InvoiceXml

/-- A positive decimal: a natural number times a power of ten. -/
structure Decimal where
  significand : Nat
  tens : Int
deriving DecidableEq, Repr

namespace Decimal

/-- The decimal without the zeros at the end of its significand; the fuel bounds how many there are. -/
def stripZeros : (fuel : Nat) → Decimal → Decimal
  | 0, d => d
  | fuel + 1, d =>
    if d.significand ≠ 0 ∧ d.significand % 10 = 0 then stripZeros fuel ⟨d.significand / 10, d.tens + 1⟩ else d

end Decimal

namespace Binary64

/-- The position of the first digit of a positive number: ten to it is at most the number, and the next
power of ten is greater. -/
def leadingPlace (x : Binary64) : Int :=
  ((Nat.toDigits 10 (x.fraction.1 * Nat.pow 10 400 / x.fraction.2)).length : Int) - 401

/-- The four numbers that decide a rounding interval, over a common denominator: the lower end, the value,
the upper end and the denominator. Below a power of two the gap is half as wide. -/
def interval (x : Binary64) : Nat × Nat × Nat × Nat :=
  let unit : Binary64 := { x with mantissa := 1 }
  let step := unit.fraction.1
  let below := if x.mantissa = Nat.pow 2 52 ∧ x.exponent ≠ minExponent then 1 else 2
  ((4 * x.mantissa - below) * step, 4 * x.mantissa * step, (4 * x.mantissa + 2) * step, 4 * unit.fraction.2)

/-- Whether the decimal rounds to the number: it lies in the interval, whose ends belong to it where the
mantissa is even. -/
def roundsTo (x : Binary64) (d : Decimal) : Bool :=
  let (low, _, high, den) := x.interval
  let num := if 0 ≤ d.tens then d.significand * Nat.pow 10 d.tens.toNat * den else d.significand * den
  let scale := if 0 ≤ d.tens then 1 else Nat.pow 10 (-d.tens).toNat
  if x.mantissa % 2 = 0 then low * scale ≤ num && num ≤ high * scale
  else low * scale < num && num < high * scale

/-- The better of the two neighbours of the value on the grid of so many digits, where one rounds back. -/
def onGrid (x : Binary64) (count : Nat) : Option Decimal :=
  let place := x.leadingPlace - (count : Int) + 1
  let num := if 0 ≤ place then x.fraction.1 else x.fraction.1 * Nat.pow 10 (-place).toNat
  let den := if 0 ≤ place then x.fraction.2 * Nat.pow 10 place.toNat else x.fraction.2
  let down : Decimal := ⟨num / den, place⟩
  let up : Decimal := ⟨num / den + 1, place⟩
  match x.roundsTo down, x.roundsTo up with
  | true, true => if roundHalfEven num den = num / den then some down else some up
  | true, false => some down
  | false, true => some up
  | false, false => none

/-- The shortest decimal that rounds to a positive number; zero has the digit zero. -/
def shortest (x : Binary64) : Decimal :=
  if x.mantissa = 0 then ⟨0, 0⟩
  else
    let grids := (List.range 17).map (· + 1)
    match grids.findSome? x.onGrid with
    | some d => d.stripZeros 18
    | none => ⟨0, 0⟩

example : shortest ⟨false, 1, -1074⟩ = ⟨5, -324⟩ := by decide +kernel
example : (ofDecimal false 1234567005 (-3)).map shortest = some ⟨1234567005, -3⟩ := by decide +kernel
example : (ofDecimal false 3 (-1)).map shortest = some ⟨3, -1⟩ := by decide +kernel

end Binary64

end InvoiceXml
