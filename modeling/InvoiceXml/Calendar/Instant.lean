import InvoiceXml.Calendar.Date

/-!
# Points in time

A point in time to the nanosecond, in coordinated universal time. It is read from a date and a time of day
with the offset of the place, and written with `Z`; fractions of a second take three, six or nine digits, as
many as are needed. A sixtieth second is kept as such.
-/

namespace InvoiceXml

/-- A point in time: the minute of a day, the second within it and the nanoseconds. -/
structure Instant where
  date : Date
  minuteOfDay : Nat
  second : Nat
  nanosecond : Nat
deriving DecidableEq, Repr

namespace Instant

/-- How many minutes a day has. -/
def minutesPerDay : Nat := 1440

/-- The point that is so many minutes earlier, less than a day in either direction. -/
def earlier? (minutes : Int) (local_ : Instant) : Option Instant :=
  let minute : Int := local_.minuteOfDay - minutes
  if minute < 0 then
    local_.date.previous?.map fun date => { local_ with date, minuteOfDay := (minute + minutesPerDay).toNat }
  else if (minutesPerDay : Int) ≤ minute then
    local_.date.next?.map fun date => { local_ with date, minuteOfDay := (minute - minutesPerDay).toNat }
  else some { local_ with minuteOfDay := minute.toNat }

/-- Nanoseconds from the digits after a point: nine count, more are passed over. -/
def readFraction (cs : List Char) : Option (Nat × List Char) :=
  match cs with
  | '.' :: rest =>
    let digits := rest.takeWhile Char.isDigit
    if digits.isEmpty then none
    else
      let counted := digits.take 9
      some (Text.numeralValue counted * Nat.pow 10 (9 - counted.length), rest.drop digits.length)
  | _ => some (0, cs)

/-- The value of two digits. -/
def readTwo : List Char → Option (Nat × List Char)
  | a :: b :: rest => (Text.numeral? [a, b]).map fun value => (value, rest)
  | _ => none

/-- The offset of a place in minutes: `Z`, `UTC`, or a sign with hours and minutes; colons and blanks may
stand between them. -/
def readOffset (cs : List Char) : Option (Int × List Char) :=
  match cs with
  | 'Z' :: rest | 'z' :: rest => some (0, rest)
  | _ =>
    if (cs.take 3).map Char.toUpper = ['U', 'T', 'C'] then some (0, cs.drop 3)
    else
      match cs with
      | sign :: rest =>
        if sign = '+' ∨ sign = '-' ∨ sign = '−' then do
          let (hours, rest) ← readTwo rest
          let (minutes, rest) ← readTwo (rest.dropWhile fun c => c = ':' || Text.isBlank c)
          if 60 ≤ minutes ∨ 24 ≤ hours then none
          else
            let offset : Int := hours * 60 + minutes
            some (if sign = '+' then offset else -offset, rest)
        else none
      | [] => none

/-- Reads a point in time. Blanks may stand before the numbers, before the marks between them, before the
offset and at the end; a `T` of either case or a blank stands between day and time. -/
def read? (text : String) : Option Instant := do
  let (year, cs) ← Date.readYear text.toList
  let cs ← Date.readLiteral ['-'] (Text.trimStart cs)
  let (month, cs) ← Date.readNumber 2 cs
  let cs ← Date.readLiteral ['-'] (Text.trimStart cs)
  let (day, cs) ← Date.readNumber 2 cs
  let cs ← match cs with
    | c :: rest => if c = 'T' ∨ c = 't' ∨ c = ' ' then some rest else none
    | [] => none
  let (hour, cs) ← Date.readNumber 2 cs
  let cs ← Date.readLiteral [':'] (Text.trimStart cs)
  let (minute, cs) ← Date.readNumber 2 cs
  let cs ← Date.readLiteral [':'] (Text.trimStart cs)
  let (second, cs) ← Date.readNumber 2 cs
  let (nanosecond, cs) ← readFraction cs
  let (offset, cs) ← readOffset (Text.trimStart cs)
  if !(Text.trimStart cs).isEmpty ∨ 24 ≤ hour ∨ 60 ≤ minute ∨ 60 < second then none
  else
    let date ← Date.ofNumbers? year month day
    earlier? offset { date, minuteOfDay := hour * 60 + minute, second, nanosecond }

/-- The digits of a fraction, as many as are needed in steps of three. -/
def fractionDigits (nanosecond : Nat) : List Char :=
  if nanosecond = 0 then []
  else if nanosecond % 1000000 = 0 then '.' :: Text.padLeft 3 (Text.digits (nanosecond / 1000000))
  else if nanosecond % 1000 = 0 then '.' :: Text.padLeft 6 (Text.digits (nanosecond / 1000))
  else '.' :: Text.padLeft 9 (Text.digits nanosecond)

/-- A point in time as written. -/
def render (instant : Instant) : String :=
  let date := instant.date
  String.ofList (Date.yearDigits date.year ++ '-' :: Date.twoDigits date.month ++ '-' ::
    Date.twoDigits date.day ++ 'T' :: Date.twoDigits (instant.minuteOfDay / 60) ++ ':' ::
    Date.twoDigits (instant.minuteOfDay % 60) ++ ':' :: Date.twoDigits instant.second ++
    fractionDigits instant.nanosecond ++ ['Z'])

example : (read? "2024-01-31T01:20:30+02:00").map render = some "2024-01-30T23:20:30Z" := by decide +kernel
example : (read? "2024-12-31t23:59:60.5-00:30").map render = some "2025-01-01T00:29:60.500Z" := by
  decide +kernel
example : read? "2024-01-31T10:20:30" = none := by decide +kernel

end Instant

end InvoiceXml
