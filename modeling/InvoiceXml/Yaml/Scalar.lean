import InvoiceXml.Data.Reader

/-!
# The meaning of plain scalars

A scalar without quotes is null, a truth value, an integer in one of four bases, a binary number, or else a
text. Digits after a leading zero make a text and no number. Integers beyond 64 bits have no place in data
and are refused as long as they fit 128 bits; larger ones are read as binary numbers.
-/

namespace InvoiceXml.Yaml

/-- Whether a plain scalar means null. -/
def isNullWord (text : String) : Bool :=
  text = "" || text = "~" || text = "null" || text = "Null" || text = "NULL"

/-- A truth value. -/
def flag? (text : String) : Option Bool :=
  if text = "true" ∨ text = "True" ∨ text = "TRUE" then some true
  else if text = "false" ∨ text = "False" ∨ text = "FALSE" then some false
  else none

/-- The number of digits of a base, at least one. -/
def based? (base : Nat) (cs : List Char) : Option Nat :=
  if cs.isEmpty then none
  else cs.foldlM (fun value c => do
    let d ← Data.hexValue? c
    if d < base then some (base * value + d) else none) 0

/-- A number without its sign: in one of three bases after its mark, or in decimal digits without leading
zeros. -/
def magnitude? : List Char → Option Nat
  | '0' :: 'x' :: digits => based? 16 digits
  | '0' :: 'o' :: digits => based? 8 digits
  | '0' :: 'b' :: digits => based? 2 digits
  | '0' :: _ :: _ => none
  | digits => based? 10 digits

/-- An integer with at most one sign. -/
def integer? : List Char → Option Int
  | '+' :: rest => (magnitude? rest).map Int.ofNat
  | '-' :: rest => (magnitude? rest).map fun n => -(n : Int)
  | rest => (magnitude? rest).map Int.ofNat

/-- Whether digits follow a leading zero. -/
def isPaddedNumeral : List Char → Bool
  | '+' :: '0' :: rest | '-' :: '0' :: rest | '0' :: rest => !rest.isEmpty && rest.all Char.isDigit
  | _ => false

/-- The digits of an exponent with at most one sign. -/
def exponent? : List Char → Option Int
  | '+' :: digits => (Text.numeral? digits).map Int.ofNat
  | '-' :: digits => (Text.numeral? digits).map fun n => -(n : Int)
  | digits => (Text.numeral? digits).map Int.ofNat

/-- An exponent up to the end, if there is one. -/
def exponentPart? : List Char → Option Int
  | [] => some 0
  | c :: rest => if c = 'e' ∨ c = 'E' then exponent? rest else none

/-- A number with a point or an exponent but without a sign: digits before or after the point. -/
def unsigned? (negative : Bool) (cs : List Char) : Option Binary64 := do
  let (whole, rest) := Data.spanDigits cs
  let (fraction, rest) := match rest with
    | '.' :: rest => Data.spanDigits rest
    | rest => ([], rest)
  if whole.isEmpty ∧ fraction.isEmpty then none
  else
    let exponent ← exponentPart? rest
    Binary64.ofDecimal negative (Text.numeralValue (whole ++ fraction)) (exponent - fraction.length)

/-- A binary number with at most one sign. -/
def binary? : List Char → Option Binary64
  | '+' :: rest => unsigned? false rest
  | '-' :: rest => unsigned? true rest
  | rest => unsigned? false rest

/-- Whether the scalar is infinite or no number; data has neither. -/
def isUnbounded (text : String) : Bool :=
  let words :=
    [".inf", ".Inf", ".INF", "+.inf", "+.Inf", "+.INF", "-.inf", "-.Inf", "-.INF", ".nan", ".NaN", ".NAN"]
  words.contains text

/-- The data of a scalar that is no integer. -/
def looseData (text : String) : Data :=
  if isUnbounded text then .null
  else if isPaddedNumeral text.toList then .str text
  else match binary? text.toList with
    | some x => .num (.float x)
    | none => .str text

/-- The data of a plain scalar. -/
def plainData? (text : String) : Option Data :=
  if isNullWord text then some .null
  else match flag? text with
    | some b => some (.bool b)
    | none =>
      match integer? text.toList with
      | some n =>
        if -(Int.pow 2 63) ≤ n ∧ n < Int.pow 2 64 then some (.int n)
        else if -(Int.pow 2 127) ≤ n ∧ n < Int.pow 2 128 then none
        else some (looseData text)
      | none => some (looseData text)

example : ["", "~", "True", "-0x1f", "1.50", "1e3", ".5", "yes", "007", ".nan", "+7"].map
      (fun s => (plainData? s).map Data.compact) =
    [some "null", some "null", some "true", some "-31", some "1.5", some "1000.0", some "0.5", some "\"yes\"",
      some "\"007\"", some "null", some "7"] := by decide +kernel

end InvoiceXml.Yaml
