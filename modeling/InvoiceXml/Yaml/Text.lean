import InvoiceXml.Data.Reader

/-!
# The text of scalars

Every character is read with the column in which it stands. A scalar is plain or between quotes, and may go
on over several lines: blanks around a line break are dropped, a single break becomes a blank, and of
several breaks all but the first stay (`Gap.text`). A plain scalar ends before a mark that has a meaning of
its own, before a comment, and where a line starts to the left of its block.
-/

namespace InvoiceXml.Yaml

/-- Characters with their columns. -/
abbrev Placed := List (Char × Nat)

/-- Whether a character breaks a line. -/
def isBreak (c : Char) : Bool := c = '\n' || c.toNat = 0x2028 || c.toNat = 0x2029

/-- Whether a character is a blank within a line. -/
def isSpace (c : Char) : Bool := c = ' ' || c = '\t'

/-- The characters of a text from a column on; all but two kinds of line break become a newline. -/
def placed : (column : Nat) → List Char → Placed
  | _, [] => []
  | column, '\r' :: '\n' :: rest => ('\n', column) :: placed 0 rest
  | column, c :: rest =>
    if c = '\r' ∨ c.toNat = 0x85 then ('\n', column) :: placed 0 rest
    else (c, column) :: placed (if isBreak c then 0 else column + 1) rest

/-- Whether a character may stand in a text. -/
def isAllowed (c : Char) : Bool :=
  let n := c.toNat
  n = 0x9 || n = 0xa || n = 0xd || (0x20 ≤ n && n ≤ 0x7e) || n = 0x85 ||
    (0xa0 ≤ n && n ≤ 0xfffd) || 0x10000 ≤ n

/-- Whether a blank, a line break or the end comes next. -/
def atBlank : Placed → Bool
  | [] => true
  | (c, _) :: _ => isSpace c || isBreak c

/-- Whether the mark of the start or the end of a document comes next. -/
def atMarker : Placed → Bool
  | (a, 0) :: (b, _) :: (c, _) :: rest =>
    ((a = '-' && b = '-' && c = '-') || (a = '.' && b = '.' && c = '.')) && atBlank rest
  | _ => false

/-- What lies between two parts of a scalar. -/
inductive Gap where
  | spaces (cs : List Char)
  /-- Line breaks, at least one. -/
  | lines (breaks : List Char)
  /-- Line breaks after one that is escaped. -/
  | escaped (breaks : List Char)
deriving DecidableEq

namespace Gap

/-- Nothing. -/
def none : Gap := spaces []

/-- The gap with one more blank or line break. -/
def add (c : Char) : Gap → Gap
  | spaces cs => if isBreak c then lines [c] else spaces (cs ++ [c])
  | lines breaks => if isBreak c then lines (breaks ++ [c]) else lines breaks
  | escaped breaks => if isBreak c then escaped (breaks ++ [c]) else escaped breaks

/-- Whether the gap breaks the line. -/
def isBroken : Gap → Bool
  | spaces _ => false
  | lines _ | escaped _ => true

/-- Whether there is no gap. -/
def isNone (gap : Gap) : Bool := gap = none

/-- What the gap adds to the text of the scalar. -/
def text : Gap → List Char
  | spaces cs => cs
  | lines ['\n'] => [' ']
  | lines ('\n' :: breaks) => breaks
  | lines breaks => breaks
  | escaped breaks => breaks

end Gap

/-- A scalar that has been read. -/
structure Scanned where
  plain : Bool
  text : List Char
  /-- The text goes on over several lines. -/
  spans : Bool
  /-- A line break follows the text and has been read over. -/
  broken : Bool
  rest : Placed

namespace Scanned

/-- A scalar with a gap and a character before it. -/
def prepend (gap : Gap) (c : Char) (scanned : Scanned) : Scanned :=
  { scanned with text := gap.text ++ c :: scanned.text, spans := scanned.spans || gap.isBroken }

/-- A scalar between quotes that ends after a gap. -/
def closed (gap : Gap) (rest : Placed) : Scanned := ⟨false, gap.text, gap.isBroken, false, rest⟩

end Scanned

/-- The marks that end a plain scalar inside brackets. -/
def isBracketMark (c : Char) : Bool := c = ',' || c = '[' || c = ']' || c = '\x7b' || c = '\x7d'

/-- Whether a colon inside brackets stands directly before a mark. -/
def isTightColon (c : Char) : Placed → Bool
  | (d, _) :: _ => c = ':' && (isBracketMark d || d = '?')
  | [] => false

/-- Whether a mark ends a plain scalar. -/
def endsPlain (bracketed : Bool) (c : Char) (rest : Placed) : Bool :=
  (c = ':' && atBlank rest) || (bracketed && isBracketMark c)

/-- The marks that have a meaning of their own. -/
def marks : List Char := "-?:,[]\x7b\x7d#&*!|>'\"%@\x60".toList

/-- Whether a plain scalar starts here. -/
def startsPlain (bracketed : Bool) : Placed → Bool
  | [] => false
  | (c, k) :: rest =>
    !atBlank ((c, k) :: rest) && (!marks.contains c || (c = '-' && !atBlank rest) ||
      (!bracketed && (c = '?' || c = ':') && !atBlank rest))

/-- Reads a plain scalar whose lines start at the least column or right of it. -/
def scanPlain (bracketed : Bool) (least : Nat) : Gap → Placed → Option Scanned
  | gap, [] => some ⟨true, [], false, gap.isBroken, []⟩
  | gap, (c, k) :: rest =>
    if isSpace c ∨ isBreak c then
      if c = '\t' ∧ gap.isBroken ∧ k < least then none else scanPlain bracketed least (gap.add c) rest
    else if (gap.isBroken ∧ !bracketed ∧ k < least) ∨ atMarker ((c, k) :: rest) ∨ (c = '#' ∧ !gap.isNone) then
      some ⟨true, [], false, gap.isBroken, (c, k) :: rest⟩
    else if bracketed ∧ isTightColon c rest then none
    else if endsPlain bracketed c rest then some ⟨true, [], false, gap.isBroken, (c, k) :: rest⟩
    else (scanPlain bracketed least .none rest).map (.prepend gap c)

/-- Reads a scalar between single quotes after the first one; two of them stand for one. -/
def scanSingle : Gap → Placed → Option Scanned
  | _, [] => none
  | gap, ('\'', _) :: ('\'', _) :: rest => (scanSingle .none rest).map (.prepend gap '\'')
  | gap, (c, k) :: rest =>
    if isSpace c ∨ isBreak c then scanSingle (gap.add c) rest
    else if atMarker ((c, k) :: rest) then none
    else if c = '\'' then some (.closed gap rest)
    else (scanSingle .none rest).map (.prepend gap c)

/-- The characters with a one letter escape. -/
def letterEscape? (c : Char) : Option Char :=
  [('0', '\x00'), ('a', '\x07'), ('b', '\x08'), ('t', '\t'), ('\t', '\t'), ('n', '\n'), ('v', '\x0b'),
    ('f', '\x0c'), ('r', '\r'), ('e', '\x1b'), (' ', ' '), ('"', '"'), ('/', '/'), ('\\', '\\'),
    ('N', '\u0085'), ('_', '\u00a0'), ('L', '\u2028'), ('P', '\u2029')].lookup c

/-- How many digits follow the letter of a numeric escape. -/
def escapeDigits? (c : Char) : Option Nat := [('x', 2), ('u', 4), ('U', 8)].lookup c

/-- The character of a code point. -/
def scalarValue? (n : Nat) : Option Char := if n.isValidChar then some (Char.ofNat n) else none

/-- The character of an escape, after its backslash. -/
def scanEscape : Placed → Option (Char × Placed)
  | [] => none
  | (c, _) :: rest =>
    match escapeDigits? c with
    | some count => do
      let (n, _) ← Data.readHex count 0 ((rest.take count).map (·.1))
      some (← scalarValue? n, rest.drop count)
    | none => (letterEscape? c).map fun d => (d, rest)

/-- Reads a scalar between double quotes after the first one; the fuel bounds its length. -/
def scanDouble : (fuel : Nat) → Gap → Placed → Option Scanned
  | 0, _, _ => none
  | _ + 1, _, [] => none
  | fuel + 1, gap, (c, k) :: rest =>
    if isSpace c ∨ isBreak c then scanDouble fuel (gap.add c) rest
    else if atMarker ((c, k) :: rest) then none
    else if c = '"' then some (.closed gap rest)
    else if c = '\\' then
      match rest with
      | (d, _) :: after =>
        if isBreak d then
          (scanDouble fuel (.escaped []) after).map fun scanned =>
            { scanned with text := gap.text ++ scanned.text, spans := true }
        else do
          let (e, rest) ← scanEscape rest
          (scanDouble fuel .none rest).map (.prepend gap e)
      | [] => none
    else (scanDouble fuel .none rest).map (.prepend gap c)

/-- Reads a scalar. -/
def scanScalar (bracketed : Bool) (least : Nat) (text : Placed) : Option Scanned :=
  if atMarker text then none
  else match text with
    | ('"', _) :: rest => scanDouble (rest.length + 1) .none rest
    | ('\'', _) :: rest => scanSingle .none rest
    | _ => if startsPlain bracketed text then scanPlain bracketed least .none text else none

end InvoiceXml.Yaml
