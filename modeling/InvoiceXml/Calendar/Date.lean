import InvoiceXml.Text.Blank
import InvoiceXml.Text.Numeral

/-!
# Calendar dates

Dates of the Gregorian calendar, extended to all years from −262143 to 262142. A `Date` exists only for a
day of the calendar.

A date is read from three numbers, with or without hyphens between them. Blanks may stand before each
number; the year has up to four digits, or a sign and any number of digits, month and day have one or two,
and each number takes as many digits as it may. `compact` writes a date in eight digits, or with a signed
year outside of 0 to 9999.
-/

namespace InvoiceXml

namespace Calendar

/-- Every fourth year, without the centuries that four hundred does not divide. -/
def isLeapYear (year : Int) : Bool :=
  year % 4 == 0 && (year % 100 != 0 || year % 400 == 0)

/-- How many days a month has; only the months 1 to 12 have any. -/
def daysInMonth (year : Int) (month : Nat) : Nat :=
  match month with
  | 2 => if isLeapYear year then 29 else 28
  | 4 | 6 | 9 | 11 => 30
  | 1 | 3 | 5 | 7 | 8 | 10 | 12 => 31
  | _ => 0

/-- The first year. -/
def minYear : Int := -262143

/-- The last year. -/
def maxYear : Int := 262142

/-- Whether the numbers denote a day of the calendar. -/
def isDay (year : Int) (month day : Nat) : Bool :=
  minYear ≤ year && year ≤ maxYear && 1 ≤ day && day ≤ daysInMonth year month

end Calendar

/-- A day of the calendar. -/
structure Date where
  year : Int
  month : Nat
  day : Nat
  isDay : Calendar.isDay year month day = true := by decide
deriving DecidableEq, Repr

namespace Date

open Calendar

/-- The date with the numbers, where there is such a day. -/
def ofNumbers? (year : Int) (month day : Nat) : Option Date :=
  if h : Calendar.isDay year month day = true then some ⟨year, month, day, h⟩ else none

/-- The day after. -/
def next? (date : Date) : Option Date :=
  (ofNumbers? date.year date.month (date.day + 1)).or <|
    (ofNumbers? date.year (date.month + 1) 1).or (ofNumbers? (date.year + 1) 1 1)

/-- The day before. -/
def previous? (date : Date) : Option Date :=
  if 1 < date.day then ofNumbers? date.year date.month (date.day - 1)
  else if 1 < date.month then
    ofNumbers? date.year (date.month - 1) (daysInMonth date.year (date.month - 1))
  else ofNumbers? (date.year - 1) 12 31

/-- Takes at most so many digits from the front of a text, at least one. -/
def readDigits (most : Option Nat) (cs : List Char) : Option (Nat × List Char) :=
  let digits := cs.takeWhile Char.isDigit
  let taken := match most with
    | some count => digits.take count
    | none => digits
  (Text.numeral? taken).map fun value => (value, cs.drop taken.length)

/-- Reads a number of at most so many digits, blanks before it allowed. -/
def readNumber (most : Nat) (cs : List Char) : Option (Nat × List Char) :=
  readDigits (some most) (Text.trimStart cs)

/-- Reads a year: four digits at most, or a sign and any number of digits. -/
def readYear (cs : List Char) : Option (Int × List Char) :=
  match Text.trimStart cs with
  | '-' :: rest => (readDigits none rest).map fun (value, rest) => (-value, rest)
  | '+' :: rest => (readDigits none rest).map fun (value, rest) => (value, rest)
  | rest => (readDigits (some 4) rest).map fun (value, rest) => (value, rest)

/-- Reads the given characters. -/
def readLiteral (expected : List Char) (cs : List Char) : Option (List Char) :=
  if expected.isPrefixOf cs then some (cs.drop expected.length) else none

/-- Reads three numbers with the same characters between each two. -/
def readNumbers (between : List Char) (cs : List Char) : Option ((Int × Nat × Nat) × List Char) := do
  let (year, cs) ← readYear cs
  let cs ← readLiteral between cs
  let (month, cs) ← readNumber 2 cs
  let cs ← readLiteral between cs
  let (day, cs) ← readNumber 2 cs
  some ((year, month, day), cs)

/-- Reads a whole text as a date with the given characters between the numbers. -/
def readWith (between : List Char) (cs : List Char) : Option Date := do
  let ((year, month, day), rest) ← readNumbers between cs
  if rest.isEmpty then ofNumbers? year month day else none

/-- Reads a date with hyphens, or else without. -/
def read? (text : String) : Option Date :=
  (readWith ['-'] text.toList).or (readWith [] text.toList)

/-- A year in four digits, with a sign outside of 0 to 9999. -/
def yearDigits (year : Int) : List Char :=
  let digits := Text.padLeft 4 (Text.digits year.natAbs)
  if 0 ≤ year ∧ year ≤ 9999 then digits
  else if year < 0 then '-' :: digits
  else '+' :: digits

/-- Two digits of a month, a day, an hour or a minute. -/
def twoDigits (n : Nat) : List Char := Text.padLeft 2 (Text.digits n)

/-- The date without anything between its numbers. -/
def compact (date : Date) : String :=
  String.ofList (yearDigits date.year ++ twoDigits date.month ++ twoDigits date.day)

theorem ofNumbers?_eq_some {year : Int} {month day : Nat} {date : Date}
    (h : ofNumbers? year month day = some date) :
    date.year = year ∧ date.month = month ∧ date.day = day := by
  simp only [ofNumbers?] at h
  split at h
  · cases h; exact ⟨rfl, rfl, rfl⟩
  · cases h

example : (read? "2024-02-29").map compact = some "20240229" := by decide +kernel
example : read? "2023-02-29" = none ∧ read? "2024-01-02x" = none := by decide +kernel
example : (read? " 2024- 1-2").map compact = some "20240102" := by decide +kernel
example : (read? "-12024-01-02").map compact = some "-120240102" := by decide +kernel

end Date

end InvoiceXml
