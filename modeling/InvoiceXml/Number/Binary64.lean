/-!
# Binary floating point numbers of 64 bits

A finite number is a sign, a mantissa below 2^53 and an exponent of two from −1074 to 971. All arithmetic is
the exact result rounded to the nearest such number, a half going to the even mantissa: `ofQuotient` rounds
a quotient of natural numbers, and products and quotients are rounded through it.

A literal is read in one of two ways. `ofDecimal` rounds the exact decimal. `ofScaled` takes the digits that
fit into 64 bits as a number and then multiplies or divides it by a rounded power of ten, so it may differ
from the exact reading in the last place.
-/

namespace InvoiceXml

/-- A finite number: the mantissa times two to the exponent, with a sign (zero has one too). -/
structure Binary64 where
  negative : Bool
  mantissa : Nat
  exponent : Int
deriving DecidableEq, Repr

namespace Binary64

/-- The least exponent of two. -/
def minExponent : Int := -1074

/-- The greatest exponent of two. -/
def maxExponent : Int := 971

/-- Zero, with either sign. -/
def zero (negative : Bool) : Binary64 := ⟨negative, 0, minExponent⟩

/-- The quotient rounded to the nearest natural number, a half going to the even one. -/
def roundHalfEven (num den : Nat) : Nat :=
  let quotient := num / den
  let rest := num % den
  if 2 * rest < den then quotient
  else if den < 2 * rest then quotient + 1
  else if quotient % 2 = 0 then quotient else quotient + 1

/-- The fraction `num / den` divided by two to the exponent. -/
def scaledFraction (num den : Nat) (exponent : Int) : Nat × Nat :=
  if 0 ≤ exponent then (num, den * Nat.pow 2 exponent.toNat) else (num * Nat.pow 2 (-exponent).toNat, den)

/-- The number nearest to `num / den`, or none where it is too large to be finite. -/
def ofQuotient (negative : Bool) (num den : Nat) : Option Binary64 :=
  if num = 0 then some (zero negative)
  else
    let guess := max ((num.log2 : Int) - (den.log2 : Int) - 53) minExponent
    let fraction := scaledFraction num den guess
    let exponent := if fraction.2 * Nat.pow 2 53 ≤ fraction.1 then guess + 1 else guess
    let exact := scaledFraction num den exponent
    let mantissa := roundHalfEven exact.1 exact.2
    let result : Binary64 :=
      if mantissa = Nat.pow 2 53 then ⟨negative, Nat.pow 2 52, exponent + 1⟩
      else ⟨negative, mantissa, exponent⟩
    if maxExponent < result.exponent then none else some result

/-- The number nearest to a natural number. -/
def ofNat (negative : Bool) (n : Nat) : Option Binary64 := ofQuotient negative n 1

/-- The absolute value as a fraction. -/
def fraction (x : Binary64) : Nat × Nat :=
  if 0 ≤ x.exponent then (x.mantissa * Nat.pow 2 x.exponent.toNat, 1)
  else (x.mantissa, Nat.pow 2 (-x.exponent).toNat)

/-- The product, rounded. -/
def mul (x y : Binary64) : Option Binary64 :=
  ofQuotient (x.negative != y.negative) (x.fraction.1 * y.fraction.1) (x.fraction.2 * y.fraction.2)

/-- The quotient, rounded; a zero divisor leaves no finite result. -/
def div (x y : Binary64) : Option Binary64 :=
  if y.mantissa = 0 then none
  else ofQuotient (x.negative != y.negative) (x.fraction.1 * y.fraction.2) (x.fraction.2 * y.fraction.1)

/-- Equality of the numbers denoted: the two zeros are equal. -/
def eqv (x y : Binary64) : Bool :=
  x == y || (x.mantissa == 0 && y.mantissa == 0)

/-- The greatest power of ten whose rounded value is finite. -/
def maxTens : Nat := 308

/-- Division by ten to `tens`, in steps of at most the greatest power; two full steps leave zero of any
number of 64 bits. -/
def scaleDown : (steps : Nat) → Binary64 → (tens : Nat) → Option Binary64
  | 0, x, _ => some (zero x.negative)
  | steps + 1, x, tens =>
    if tens ≤ maxTens then (ofNat false (Nat.pow 10 tens)).bind x.div
    else ((ofNat false (Nat.pow 10 maxTens)).bind x.div).bind fun y => scaleDown steps y (tens - maxTens)

/-- The number of a literal whose leading digits are `significand`, scaled by a power of ten: the
significand is rounded, and so is its product or quotient with the rounded power. -/
def ofScaled (negative : Bool) (significand : Nat) (tens : Int) : Option Binary64 :=
  (ofNat negative significand).bind fun x =>
    if x.mantissa = 0 then some x
    else if tens < 0 then scaleDown 4 x (-tens).toNat
    else if tens.toNat ≤ maxTens then (ofNat false (Nat.pow 10 tens.toNat)).bind x.mul
    else none

/-- The number nearest to `significand` times ten to `tens`. Powers that no digit count can bring back into
the finite range are decided without being computed. -/
def ofDecimal (negative : Bool) (significand : Nat) (tens : Int) : Option Binary64 :=
  let places : Int := (Nat.toDigits 10 significand).length
  if significand = 0 then some (zero negative)
  else if 400 < tens + places then none
  else if tens + places < -400 then some (zero negative)
  else if 0 ≤ tens then ofQuotient negative (significand * Nat.pow 10 tens.toNat) 1
  else ofQuotient negative significand (Nat.pow 10 (-tens).toNat)

example : ofQuotient false 1 10 = some ⟨false, 0x1999999999999a, -56⟩ := by decide +kernel
example : ofQuotient true 0 7 = some (zero true) ∧ ofNat false (2 ^ 1024) = none := by decide +kernel
example : ofDecimal false 5 (-324) = some ⟨false, 1, -1074⟩ := by decide +kernel
example : ofNat false (2 ^ 53 + 1) = some ⟨false, 2 ^ 52, 1⟩ := by decide +kernel

end Binary64

end InvoiceXml
