import InvoiceXml.Pattern.Basic
import InvoiceXml.Text.Numeral

/-!
# Reading patterns

The written form of patterns: `|` between alternatives, `*`, `+`, `?` and counts in braces after what they
repeat, round brackets around a part, square brackets around a class of characters and ranges (`^` first
excludes them), a point for any character but the line feed, a backslash before a mark that stands for
itself, and all other characters for themselves. There are no anchors: a pattern always means whole texts.
-/

namespace InvoiceXml.Pattern

/-- The marks that do not stand for themselves. -/
def isMark (c : Char) : Bool :=
  c ∈ ['\\', '.', '+', '*', '?', '(', ')', '|', '[', '\x7b', '^', '$']

/-- A character of a class, possibly after a backslash. -/
def readClassChar : List Char → Option (Char × List Char)
  | '\\' :: c :: rest => if c.isAlphanum then none else some (c, rest)
  | '\\' :: [] => none
  | '[' :: _ => none
  | c :: rest => some (c, rest)
  | [] => none

/-- The ranges of a class up to its bracket; the fuel bounds their number. -/
def readRanges : (fuel : Nat) → List Char → Option (List (Char × Char) × List Char)
  | 0, _ => none
  | fuel + 1, cs => do
    let (first, rest) ← readClassChar cs
    let (range, rest) ← match rest with
      | '-' :: ']' :: _ => some ((first, first), rest)
      | '-' :: rest => do
        let (last, rest) ← readClassChar rest
        if first ≤ last then some ((first, last), rest) else none
      | _ => some ((first, first), rest)
    match rest with
    | ']' :: rest => some ([range], rest)
    | _ => do
      let (ranges, rest) ← readRanges fuel rest
      some (range :: ranges, rest)

/-- A class after its opening bracket. -/
def readClass (cs : List Char) : Option (CharClass × List Char) :=
  match cs with
  | '^' :: rest => (readRanges rest.length rest).map fun (ranges, rest) => (⟨true, ranges⟩, rest)
  | rest => (readRanges rest.length rest).map fun (ranges, rest) => (⟨false, ranges⟩, rest)

/-- The digits at the front of a text as a number. -/
def readCount (cs : List Char) : Option (Nat × List Char) :=
  (Text.numeral? (cs.takeWhile Char.isDigit)).map fun n => (n, cs.dropWhile Char.isDigit)

/-- The counts between braces, applied to what stands before them. -/
def readRepeat (p : Pattern) (cs : List Char) : Option (Pattern × List Char) := do
  let (least, rest) ← readCount cs
  match rest with
  | '\x7d' :: rest => some (times p least, rest)
  | ',' :: '\x7d' :: rest => some (seq (times p least) (star p), rest)
  | ',' :: rest =>
    let (most, rest) ← readCount rest
    match rest with
    | '\x7d' :: rest =>
      if least ≤ most then some (seq (times p least) (upTo p (most - least)), rest) else none
    | _ => none
  | _ => none

/-- What stands after a part and repeats it, any number of times; the fuel bounds how often. -/
def readRepeats : (fuel : Nat) → Pattern → List Char → Option (Pattern × List Char)
  | 0, p, cs => some (p, cs)
  | fuel + 1, p, cs =>
    match cs with
    | '*' :: rest => readRepeats fuel (star p) rest
    | '+' :: rest => readRepeats fuel (seq p (star p)) rest
    | '?' :: rest => readRepeats fuel (alt empty p) rest
    | '\x7b' :: rest => do
      let (p, rest) ← readRepeat p rest
      readRepeats fuel p rest
    | rest => some (p, rest)

mutual

/-- Alternatives up to the end or a closing bracket. -/
def readAlternatives : (fuel : Nat) → List Char → Option (Pattern × List Char)
  | 0, _ => none
  | fuel + 1, cs => do
    let (p, rest) ← readSequence fuel cs
    match rest with
    | '|' :: rest =>
      let (q, rest) ← readAlternatives fuel rest
      some (alt p q, rest)
    | rest => some (p, rest)

/-- Parts one after another. -/
def readSequence : (fuel : Nat) → List Char → Option (Pattern × List Char)
  | 0, _ => none
  | fuel + 1, cs =>
    match cs with
    | [] => some (empty, [])
    | '|' :: _ => some (empty, cs)
    | ')' :: _ => some (empty, cs)
    | _ => do
      let (p, rest) ← readPart fuel cs
      let (p, rest) ← readRepeats rest.length p rest
      let (q, rest) ← readSequence fuel rest
      some (seq p q, rest)

/-- A single part. -/
def readPart : (fuel : Nat) → List Char → Option (Pattern × List Char)
  | 0, _ => none
  | fuel + 1, cs =>
    match cs with
    | '(' :: rest => do
      let (p, rest) ← readAlternatives fuel rest
      match rest with
      | ')' :: rest => some (p, rest)
      | _ => none
    | '[' :: rest => (readClass rest).map fun (cls, rest) => (one cls, rest)
    | '.' :: rest => some (anyChar, rest)
    | '\\' :: c :: rest => if c.isAlphanum then none else some (char c, rest)
    | c :: rest => if isMark c then none else some (char c, rest)
    | [] => none

end

/-- Reads a whole pattern. -/
def read? (text : String) : Option Pattern := do
  let cs := text.toList
  let (p, rest) ← readAlternatives (3 * cs.length + 3) cs
  if rest.isEmpty then some p else none

example : (read? "[A-Z]\x7b3\x7d").map (fun p => (accepts p "EUR".toList, accepts p "EURO".toList)) =
    some (true, false) := by decide +kernel
example : (read? "a|ab").map (fun p => accepts p "ab".toList) = some true := by decide +kernel
example : ["(", "[a", "a\x7b2", "*a", "a)"].all (fun s => (read? s).isNone) = true := by decide +kernel

end InvoiceXml.Pattern
