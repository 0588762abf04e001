import InvoiceXml.Path.Basic
import InvoiceXml.Text.Alphabetic

/-!
# Reading paths

The grammar of paths:

* a path is one or more parts between slashes, and absolute if a slash stands before them;
* every part is a step, but the last may be `@` and a qualified name;
* a step is a qualified name, and possibly a selector in brackets;
* a selector is a number below 2^64 in ASCII digits, or an ASCII identifier;
* a qualified name is one name, or two with a colon between them.

The parts are read from the left, and in a part the selector before the name: the first fault in that order
is the one reported.
-/

namespace InvoiceXml.Path

/-- A character that may start a name. -/
def startsName (c : Char) : Bool := Text.isAlphabetic c || c = '_'

/-- A character that may stand further on in a name. -/
def continuesName (c : Char) : Bool :=
  Text.isAlphanumeric c || c = '_' || c = '-' || c = '.'

/-- A name without a colon. -/
def isName : List Char → Bool
  | [] => false
  | c :: cs => startsName c && cs.all continuesName

/-- A name, or two with a colon between them. -/
def isQName (cs : List Char) : Bool :=
  match Text.cutAtFirst ':' cs with
  | some (scope, name) => isName scope && isName name
  | none => isName cs

/-- An ASCII identifier, as groups are named. -/
def isIdentifier : List Char → Bool
  | [] => false
  | c :: cs => (c.isAlpha || c = '_') && cs.all fun d => d.isAlphanum || d = '_'

/-- What is between the brackets of a step. -/
def readSelector (inner : List Char) : Except PathFault Selector :=
  match Text.numeral? inner with
  | some n => if n < Nat.pow 2 64 then .ok (.index n) else .error (.indexRange (String.ofList inner))
  | none =>
    if isIdentifier inner then .ok (.group (String.ofList inner))
    else .error (.selectorForm (String.ofList inner))

/-- The text before a closing bracket at the end. -/
def closedBy (close : Char) (cs : List Char) : Option (List Char) :=
  if cs.getLast? = some close then some cs.dropLast else none

/-- One step. -/
def readStep (part : List Char) : Except PathFault Step := do
  let (name, selector) ← match Text.cutAtFirst '[' part with
    | none => .ok (part, none)
    | some (name, after) =>
      match closedBy ']' after with
      | none => .error (.unclosedSelector (String.ofList part))
      | some inner => do
        let selector ← readSelector inner
        .ok (name, some selector)
  if isQName name then .ok { name := String.ofList name, selector }
  else .error (.elementName (String.ofList name))

/-- The parts of a path in order: the steps, and the attribute in the last part. -/
def readParts : List (List Char) → Except PathFault (List Step × Option String)
  | [] => .ok ([], none)
  | part :: rest =>
    match part with
    | [] => .error .emptyStep
    | '@' :: name =>
      if rest ≠ [] then .error .attributeNotLast
      else if isQName name then .ok ([], some (String.ofList name))
      else .error (.attributeName (String.ofList name))
    | _ => do
      let step ← readStep part
      let (steps, attr) ← readParts rest
      .ok (step :: steps, attr)

/-- A leading slash and the text after it. -/
def splitRoot : List Char → Bool × List Char
  | '/' :: body => (true, body)
  | body => (false, body)

/-- Reads the characters of a path. -/
def readChars (cs : List Char) : Except PathFault Path := do
  let (absolute, body) := splitRoot cs
  if body = [] then .error .emptyPath
  else
    let (steps, attr) ← readParts (Text.splitAtEach '/' body)
    if absolute ∧ steps = [] then .error .noRootElement else .ok { absolute, steps, attr }

/-- Reads a path. -/
def read (text : String) : Except PathFault Path := readChars text.toList

example : (read "/a/b[2]/c[g]/@x").toOption =
    some ⟨true, [⟨"a", none⟩, ⟨"b", some (.index 2)⟩, ⟨"c", some (.group "g")⟩], some "x"⟩ := by
  decide +kernel
example : (read "").toOption = none ∧ (read "/@x").toOption = none ∧ (read "a/@x/b").toOption = none := by
  decide +kernel

end InvoiceXml.Path
