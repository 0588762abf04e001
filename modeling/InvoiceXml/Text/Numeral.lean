/-!
# Decimal numerals

Writing and reading natural numbers in ASCII digits. `digits` writes without leading zeros, `numeral?` reads
one or more digits, leading zeros allowed, and `padLeft` fills a numeral up to a width.
-/

namespace InvoiceXml.Text

/-- The value of an ASCII digit. -/
def digitValue (c : Char) : Nat := c.toNat - 48

/-- The number that a sequence of digits denotes after the digits of a number before it. -/
def numeralFrom (before : Nat) (cs : List Char) : Nat :=
  cs.foldl (fun value c => 10 * value + digitValue c) before

/-- The number that a sequence of digits denotes. -/
def numeralValue (cs : List Char) : Nat := numeralFrom 0 cs

/-- Reads one or more ASCII digits and nothing else. -/
def numeral? (cs : List Char) : Option Nat :=
  if cs.isEmpty || !cs.all Char.isDigit then none else some (numeralValue cs)

/-- The digits of a number, without leading zeros; zero has one digit. -/
def digits (n : Nat) : List Char := Nat.toDigits 10 n

/-- A number with its sign, written only when negative. -/
def signedDigits (n : Int) : List Char :=
  if n < 0 then '-' :: digits n.natAbs else digits n.natAbs

/-- A numeral filled up with zeros at the front. -/
def padLeft (width : Nat) (cs : List Char) : List Char :=
  List.replicate (width - cs.length) '0' ++ cs

/-- A number in decimal digits. -/
def natText (n : Nat) : String := String.ofList (digits n)

theorem length_padLeft (width : Nat) (cs : List Char) :
    (padLeft width cs).length = max width cs.length := by
  simp [padLeft]
  omega

theorem numeralFrom_append (before : Nat) (cs ds : List Char) :
    numeralFrom before (cs ++ ds) = numeralFrom (numeralFrom before cs) ds := by
  simp [numeralFrom]

example : numeral? "007".toList = some 7 ∧ numeral? [] = none ∧ numeral? "1_0".toList = none := by decide
example : natText 380 = "380" ∧ padLeft 4 (digits 7) = "0007".toList := by decide

end InvoiceXml.Text
