import InvoiceXml.Data.Compact

/-!
# Reading data

Reads the text of data. A reading step takes the characters that are left and gives what it read and what
remains, or nothing where the text is not of its form. Containers nest at most `maxDepth` deep: the depth
still allowed is the measure on which `readValue` recurses.

Integers that fit 64 bits, signed or unsigned, stay integers; every other number becomes a binary number,
and a number too large for one is refused. So is half of a surrogate pair.
-/

namespace InvoiceXml.Data

/-- How deep containers may nest. -/
def maxDepth : Nat := 127

/-- A step that reads from the front of a text. -/
abbrev Reads (α : Type) := List Char → Option (α × List Char)

/-- The four blanks that may stand between tokens. -/
def isGap (c : Char) : Bool := c = ' ' || c = '\t' || c = '\n' || c = '\r'

/-- The text from its next token. -/
def skipGap (cs : List Char) : List Char := cs.dropWhile isGap

/-- The value of a hexadecimal digit of either case. -/
def hexValue? (c : Char) : Option Nat :=
  if c.isDigit then some (c.toNat - 48)
  else if 'a' ≤ c ∧ c ≤ 'f' then some (c.toNat - 87)
  else if 'A' ≤ c ∧ c ≤ 'F' then some (c.toNat - 55)
  else none

/-- The number of a fixed count of hexadecimal digits. -/
def readHex : (count : Nat) → (before : Nat) → Reads Nat
  | 0, before, cs => some (before, cs)
  | count + 1, before, c :: cs => (hexValue? c).bind fun d => readHex count (16 * before + d) cs
  | _ + 1, _, [] => none

/-- A code point written by its sixteen bit units: one unit, or two that make a surrogate pair. -/
def readUnits (cs : List Char) : Option (Char × List Char) := do
  let (unit, rest) ← readHex 4 0 cs
  if 0xdc00 ≤ unit ∧ unit ≤ 0xdfff then none
  else if 0xd800 ≤ unit ∧ unit ≤ 0xdbff then
    match rest with
    | '\\' :: 'u' :: rest =>
      let (low, rest) ← readHex 4 0 rest
      if 0xdc00 ≤ low ∧ low ≤ 0xdfff then
        some (Char.ofNat (0x10000 + (unit - 0xd800) * 0x400 + (low - 0xdc00)), rest)
      else none
    | _ => none
  else some (Char.ofNat unit, rest)

/-- The character of an escape, after its backslash. -/
def readEscape : Reads Char
  | '"' :: rest => some ('"', rest)
  | '\\' :: rest => some ('\\', rest)
  | '/' :: rest => some ('/', rest)
  | 'b' :: rest => some ('\x08', rest)
  | 'f' :: rest => some ('\x0c', rest)
  | 'n' :: rest => some ('\n', rest)
  | 'r' :: rest => some ('\r', rest)
  | 't' :: rest => some ('\t', rest)
  | 'u' :: rest => readUnits rest
  | _ => none

/-- The characters of a text up to the quote that ends it; the fuel bounds their number. -/
def readStringRest : (fuel : Nat) → Reads (List Char)
  | 0, _ => none
  | fuel + 1, cs =>
    match cs with
    | [] => none
    | '"' :: rest => some ([], rest)
    | '\\' :: rest => do
      let (c, rest) ← readEscape rest
      let (text, rest) ← readStringRest fuel rest
      some (c :: text, rest)
    | c :: rest =>
      if c.toNat < 0x20 then none
      else do
        let (text, rest) ← readStringRest fuel rest
        some (c :: text, rest)

/-- A text between quotes. -/
def readString : Reads String
  | '"' :: rest => (readStringRest rest.length rest).map fun (text, rest) => (String.ofList text, rest)
  | _ => none

/-- The parts of a number literal: the digits before and after the point, and the exponent. -/
structure Literal where
  negative : Bool
  whole : List Char
  fraction : List Char
  exponent : Int
  /-- Neither a point nor an exponent is written. -/
  isInteger : Bool
deriving DecidableEq

/-- The digits at the front of a text. -/
def spanDigits (cs : List Char) : List Char × List Char :=
  (cs.takeWhile Char.isDigit, cs.dropWhile Char.isDigit)

/-- Digits before the point: a zero stands alone. -/
def readWhole (cs : List Char) : Option (List Char × List Char) :=
  match spanDigits cs with
  | ([], _) => none
  | ('0' :: _ :: _, _) => none
  | (digits, rest) => some (digits, rest)

/-- A point and the digits after it, if there is a point. -/
def readFraction : Reads (Option (List Char))
  | '.' :: rest =>
    match spanDigits rest with
    | ([], _) => none
    | (digits, rest) => some (some digits, rest)
  | rest => some (none, rest)

/-- The digits of an exponent, with its sign. -/
def readExponentDigits (negative : Bool) (cs : List Char) : Option (Option Int × List Char) :=
  match spanDigits cs with
  | ([], _) => none
  | (digits, rest) =>
    let value : Int := Text.numeralValue digits
    some (some (if negative then -value else value), rest)

/-- An exponent, if there is one. -/
def readExponent : Reads (Option Int)
  | c :: rest =>
    if c = 'e' ∨ c = 'E' then
      match rest with
      | '-' :: rest => readExponentDigits true rest
      | '+' :: rest => readExponentDigits false rest
      | rest => readExponentDigits false rest
    else some (none, c :: rest)
  | [] => some (none, [])

/-- A number literal. -/
def readLiteral (cs : List Char) : Option (Literal × List Char) := do
  let (negative, cs) := match cs with
    | '-' :: rest => (true, rest)
    | cs => (false, cs)
  let (whole, cs) ← readWhole cs
  let (fraction, cs) ← readFraction cs
  let (exponent, cs) ← readExponent cs
  some (⟨negative, whole, fraction.getD [], exponent.getD 0, fraction.isNone && exponent.isNone⟩, cs)

/-- The greatest number of 64 bits. -/
def maxWord : Nat := Nat.pow 2 64 - 1

/-- Takes digits into a number as long as it fits 64 bits; gives the number and the digits left over. -/
def gather : Nat → List Char → Nat × List Char
  | n, [] => (n, [])
  | n, c :: cs =>
    let next := 10 * n + Text.digitValue c
    if next ≤ maxWord then gather next cs else (n, c :: cs)

/-- The number of a literal, where it is finite. -/
def Literal.num? (literal : Literal) : Option Num :=
  let (whole, surplus) := gather 0 literal.whole
  let isWord := surplus.isEmpty && literal.isInteger
  if isWord ∧ !literal.negative then some (.int whole)
  else if isWord ∧ 0 < whole ∧ whole ≤ Nat.pow 2 63 then some (.int (-whole))
  else
    let (significand, unread) := gather whole literal.fraction
    let read : Int := literal.fraction.length - unread.length
    (Binary64.ofScaled literal.negative significand (surplus.length - read + literal.exponent)).map .float

/-- A number. -/
def readNumber (cs : List Char) : Option (Data × List Char) := do
  let (literal, rest) ← readLiteral cs
  let n ← literal.num?
  some (.num n, rest)

/-- Data that is no container. -/
def readScalar (cs : List Char) : Option (Data × List Char) :=
  match cs with
  | 'n' :: 'u' :: 'l' :: 'l' :: rest => some (null, rest)
  | 't' :: 'r' :: 'u' :: 'e' :: rest => some (bool true, rest)
  | 'f' :: 'a' :: 'l' :: 's' :: 'e' :: rest => some (bool false, rest)
  | '"' :: _ => (readString cs).map fun (s, rest) => (str s, rest)
  | _ => readNumber cs

/-- The items of an array up to its bracket, at least one; the fuel bounds their number. -/
def readItems (value : Reads Data) : (fuel : Nat) → Reads (List Data)
  | 0, _ => none
  | fuel + 1, cs => do
    let (item, rest) ← value cs
    match skipGap rest with
    | ',' :: rest =>
      let (items, rest) ← readItems value fuel rest
      some (item :: items, rest)
    | ']' :: rest => some ([item], rest)
    | _ => none

/-- The members of an object up to its brace, at least one; the fuel bounds their number. -/
def readMembers (value : Reads Data) : (fuel : Nat) → Reads (List (String × Data))
  | 0, _ => none
  | fuel + 1, cs => do
    let (key, rest) ← readString (skipGap cs)
    match skipGap rest with
    | ':' :: rest =>
      let (item, rest) ← value rest
      match skipGap rest with
      | ',' :: rest =>
        let (members, rest) ← readMembers value fuel rest
        some ((key, item) :: members, rest)
      | '\x7d' :: rest => some ([(key, item)], rest)
      | _ => none
    | _ => none

/-- Data whose containers nest at most `depth` deep. -/
def readValue : (depth : Nat) → Reads Data
  | 0, cs => readScalar (skipGap cs)
  | depth + 1, cs =>
    match skipGap cs with
    | '[' :: rest =>
      match skipGap rest with
      | ']' :: rest => some (arr [], rest)
      | _ => (readItems (readValue depth) rest.length rest).map fun (items, rest) => (arr items, rest)
    | '\x7b' :: rest =>
      match skipGap rest with
      | '\x7d' :: rest => some (obj [], rest)
      | _ =>
        (readMembers (readValue depth) rest.length rest).map fun (members, rest) => (obj members, rest)
    | rest => readScalar rest

/-- Reads a whole text as it is written, repeated keys included. -/
def readRaw? (text : String) : Option Data := do
  let (data, rest) ← readValue maxDepth text.toList
  if (skipGap rest).isEmpty then some data else none

/-- Reads a whole text; a repeated key keeps its first place and its last value. -/
def read? (text : String) : Option Data := (readRaw? text).map normal

example : (read? " \x7b\"a\": [1, -0, 2.50], \"b\": null, \"a\": 3\x7d ").map compact =
    some "\x7b\"a\":3,\"b\":null\x7d" := by decide +kernel
example : (read? "[18446744073709551615, 18446744073709551616, -0, 1e-7]").map compact =
    some "[18446744073709551615,1.8446744073709552e+19,-0.0,1e-7]" := by decide +kernel
example : (read? "\"\\ud83d\\ude00\\/\"").map compact = some "\"😀/\"" := by decide +kernel
example : (read? "\"\\ud83d\"").isNone ∧ (read? "01").isNone ∧ (read? "1e999").isNone := by decide +kernel

end InvoiceXml.Data
