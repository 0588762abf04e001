import InvoiceXml.Yaml.Node
import InvoiceXml.Yaml.Text

/-!
# Reading nodes

A text holds one document. Outside of brackets its structure is given by columns: the entries of a map and
the items of a list start in one column, and what belongs to one of them stands to the right of it; only the
list of an entry may start in the column of the entry itself. A key and its colon stand on one line, and at
the start of a line or right after the dash of an item (`Point.fresh`). Inside brackets columns have no
meaning.

The functions share their fuel, of which every level of nesting and every item or entry takes at most three
units and at least one character.
-/

namespace InvoiceXml.Yaml

/-- Where reading goes on: what is left of the text, and whether a new entry or item may start here. -/
structure Point where
  fresh : Bool
  rest : Placed

namespace Point

/-- Passes over blanks, comments and line breaks. Tabs are no indentation. -/
def skipFrom (bracketed fresh comment : Bool) : Placed → Point
  | [] => ⟨fresh, []⟩
  | (c, k) :: rest =>
    if isBreak c then skipFrom bracketed (fresh || !bracketed) false rest
    else if comment then skipFrom bracketed fresh true rest
    else if c = ' ' ∨ (c = '\t' ∧ (bracketed ∨ !fresh)) then skipFrom bracketed fresh false rest
    else if c = '#' then skipFrom bracketed fresh true rest
    else ⟨fresh, (c, k) :: rest⟩

/-- The next point at which something is written. -/
def skip (bracketed : Bool) (point : Point) : Point := skipFrom bracketed point.fresh false point.rest

end Point

/-- How far from the start of a key its colon may stand. -/
def maxKeyLength : Nat := 1024

/-- What follows the colon, if the scalar that starts in the column is a key. -/
def afterColon? (bracketed : Bool) (column : Nat) (scanned : Scanned) : Option Placed :=
  if scanned.spans || scanned.broken then none
  else match scanned.rest.dropWhile fun c => isSpace c.1 with
    | (':', k) :: rest =>
      if (bracketed || atBlank rest) && k ≤ column + maxKeyLength then some rest else none
    | _ => none

namespace Scanned

/-- The text of a scalar. -/
def key (scanned : Scanned) : String := String.ofList scanned.text

/-- The scalar as a node. -/
def node (scanned : Scanned) : Node := .scalar scanned.plain scanned.key

/-- Where reading goes on after the scalar. -/
def after (scanned : Scanned) : Point := ⟨scanned.broken, scanned.rest⟩

end Scanned

/-- The column of the next character. -/
def columnOf : Placed → Nat
  | [] => 0
  | (_, k) :: _ => k

/-! ### Inside brackets -/

mutual

/-- Reads a node inside brackets; lines of plain scalars start at the least column. -/
def readBracketed (least : Nat) : (fuel : Nat) → Placed → Option (Node × Placed)
  | 0, _ => none
  | fuel + 1, text =>
    match text with
    | ('[', _) :: rest => do
      let (items, rest) ← readBracketedItems least fuel rest
      some (.list items, rest)
    | ('\x7b', _) :: rest => do
      let (entries, rest) ← readBracketedEntries least fuel rest
      some (.map entries, rest)
    | text => do
      let scanned ← scanScalar true least text
      some (scanned.node, scanned.rest)

/-- Reads the items of a list up to its bracket. -/
def readBracketedItems (least : Nat) : (fuel : Nat) → Placed → Option (List Node × Placed)
  | 0, _ => none
  | fuel + 1, text =>
    match (Point.skip true ⟨true, text⟩).rest with
    | (']', _) :: rest => some ([], rest)
    | text => do
      let (item, rest) ← readBracketedItem least fuel text
      match (Point.skip true ⟨false, rest⟩).rest with
      | (',', _) :: rest => do
        let (items, rest) ← readBracketedItems least fuel rest
        some (item :: items, rest)
      | (']', _) :: rest => some ([item], rest)
      | _ => none

/-- Reads an item: a node, or a single entry. -/
def readBracketedItem (least : Nat) : (fuel : Nat) → Placed → Option (Node × Placed)
  | 0, _ => none
  | fuel + 1, text =>
    match scanScalar true least text with
    | some scanned =>
      match afterColon? true (columnOf text) scanned with
      | some rest => do
        let (value, rest) ← readBracketedValue least fuel rest
        some (.map [(scanned.key, value)], rest)
      | none => some (scanned.node, scanned.rest)
    | none => readBracketed least fuel text

/-- Reads the value after a colon; it may be left out. -/
def readBracketedValue (least : Nat) : (fuel : Nat) → Placed → Option (Node × Placed)
  | 0, _ => none
  | fuel + 1, text =>
    match (Point.skip true ⟨false, text⟩).rest with
    | (',', k) :: rest => some (.empty, (',', k) :: rest)
    | (']', k) :: rest => some (.empty, (']', k) :: rest)
    | ('\x7d', k) :: rest => some (.empty, ('\x7d', k) :: rest)
    | text => readBracketed least fuel text

/-- Reads the entries of a map up to its brace; a key may stand alone. -/
def readBracketedEntries (least : Nat) : (fuel : Nat) → Placed → Option (List (String × Node) × Placed)
  | 0, _ => none
  | fuel + 1, text =>
    match (Point.skip true ⟨true, text⟩).rest with
    | ('\x7d', _) :: rest => some ([], rest)
    | text => do
      let scanned ← scanScalar true least text
      let (value, rest) ← match afterColon? true (columnOf text) scanned with
        | some rest => readBracketedValue least fuel rest
        | none => some (.empty, scanned.rest)
      match (Point.skip true ⟨false, rest⟩).rest with
      | (',', _) :: rest => do
        let (entries, rest) ← readBracketedEntries least fuel rest
        some ((scanned.key, value) :: entries, rest)
      | ('\x7d', _) :: rest => some ([(scanned.key, value)], rest)
      | _ => none

end

/-! ### Outside of brackets -/

/-- Whether the dash of an item comes next. -/
def atDash : Placed → Bool
  | ('-', _) :: rest => atBlank rest
  | _ => false

mutual

/-- Reads a node whose parts stand at the least column or right of it. A list may start one column to the
left where `hanging` says so. -/
def readNode (least : Nat) (hanging : Bool) : (fuel : Nat) → Point → Option (Node × Point)
  | 0, _ => none
  | fuel + 1, point =>
    let point := point.skip false
    match point.rest with
    | [] => some (.empty, point)
    | (c, k) :: rest =>
      if atMarker point.rest then some (.empty, point)
      else if k < least ∧ !(hanging ∧ point.fresh ∧ k + 1 = least ∧ atDash point.rest) then
        some (.empty, point)
      else if atDash point.rest then
        if point.fresh then do
          let (items, point) ← readItems k fuel ⟨true, rest⟩
          some (.list items, point)
        else none
      else if c = '[' ∨ c = '\x7b' then do
        let (node, rest) ← readBracketed least fuel point.rest
        some (node, ⟨false, rest⟩)
      else do
        let scanned ← scanScalar false least point.rest
        match afterColon? false k scanned with
        | some rest =>
          if point.fresh then do
            let (entries, point) ← readEntries k scanned.key fuel ⟨false, rest⟩
            some (.map entries, point)
          else none
        | none => some (scanned.node, scanned.after)

/-- Reads the items of a list whose dashes stand in a column, after the first dash. -/
def readItems (column : Nat) : (fuel : Nat) → Point → Option (List Node × Point)
  | 0, _ => none
  | fuel + 1, point => do
    let (item, point) ← readNode (column + 1) false fuel point
    let point := point.skip false
    match point.rest with
    | (c, k) :: rest =>
      if point.fresh ∧ k = column ∧ atDash ((c, k) :: rest) ∧ !atMarker ((c, k) :: rest) then do
        let (items, point) ← readItems column fuel ⟨true, rest⟩
        some (item :: items, point)
      else some ([item], point)
    | [] => some ([item], point)

/-- Reads the entries of a map whose keys stand in a column, after the first key and its colon. -/
def readEntries (column : Nat) (key : String) : (fuel : Nat) → Point → Option (List (String × Node) × Point)
  | 0, _ => none
  | fuel + 1, point => do
    let (value, point) ← readNode (column + 1) true fuel point
    let point := point.skip false
    match point.rest with
    | (c, k) :: rest =>
      if point.fresh ∧ k = column ∧ !atMarker ((c, k) :: rest) then do
        let scanned ← scanScalar false (column + 1) ((c, k) :: rest)
        let rest ← afterColon? false column scanned
        let (entries, point) ← readEntries column scanned.key fuel ⟨false, rest⟩
        some ((key, value) :: entries, point)
      else some ([(key, value)], point)
    | [] => some ([(key, value)], point)

end

/-! ### Documents -/

/-- Whether nothing follows the document but marks of its end. -/
def isFinished : (fuel : Nat) → Point → Bool
  | 0, _ => false
  | fuel + 1, point =>
    match (point.skip false).rest with
    | [] => true
    | ('.', k) :: rest => atMarker (('.', k) :: rest) && isFinished fuel ⟨false, rest.drop 2⟩
    | _ => false

/-- The start of the document, after the mark that may stand before it. -/
def start (text : Placed) : Point :=
  let point := Point.skip false ⟨true, text⟩
  match point.rest with
  | ('-', k) :: rest => if atMarker (('-', k) :: rest) then ⟨false, rest.drop 2⟩ else point
  | _ => point

/-- How deep nodes may nest. -/
def maxDepth : Nat := 128

/-- Reads the node of a text; a text in which nothing is written is an empty scalar. -/
def read? (text : String) : Option Node :=
  let cs := text.toList
  if !cs.all isAllowed then none
  else do
    let text := placed 0 cs
    let fuel := 3 * (text.length + 2)
    let (node, point) ← readNode 0 false fuel (start text)
    if isFinished fuel point ∧ node.depth ≤ maxDepth then some node else none

end InvoiceXml.Yaml
