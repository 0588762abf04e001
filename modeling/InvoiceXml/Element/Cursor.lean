import InvoiceXml.Element.Family
import InvoiceXml.Text.Numeral
import InvoiceXml.Text.Split

/-!
# Cursors

A cursor stands at an element of a tree. It knows the element's address and how it was reached: the name of
the start element, then for each step the name and the number within the family. `navigate` follows a text
of steps between slashes; a step without a number in brackets means the first member, and empty steps are
passed over. The number stands between the first opening and the first closing bracket of the step.
-/

namespace InvoiceXml

/-- A place in a tree and the way to it. -/
structure Cursor where
  element : Element
  path : List String
  address : List Nat

/-- Why a cursor cannot move. -/
inductive CursorError where
  | notFound (path : String)
  | unclosedBracket (path step : String)
  | invalidIndex (path step : String)
  | crossedBrackets (path step : String)
deriving DecidableEq, Repr

namespace CursorError

/-- The words for a failure. -/
def message : CursorError → String
  | notFound path => "Node not found at path: " ++ path
  | unclosedBracket path step => "Invalid path '" ++ path ++ "': unclosed bracket in " ++ step
  | invalidIndex path step => "Invalid path '" ++ path ++ "': invalid index in " ++ step
  | crossedBrackets path step => "Invalid path '" ++ path ++ "': closing bracket first in " ++ step

end CursorError

namespace Cursor

/-- The cursor at the root of a tree. -/
def start (root : Element) : Cursor := ⟨root, [root.name], []⟩

/-- A name with its number in brackets. -/
def numbered (name : String) (number : Nat) : String := name ++ "[" ++ Text.natText number ++ "]"

/-- Moves to the child with the name and number. -/
def instance? (name : String) (number : Nat) (cursor : Cursor) : Except CursorError Cursor :=
  match Element.member? name number cursor.element.children with
  | some (position, child) =>
    .ok ⟨child, cursor.path ++ [numbered name number], cursor.address ++ [position]⟩
  | none => .error (.notFound (Text.joined "/" cursor.path ++ "/" ++ numbered name number))

/-- Moves to the first child with the name. -/
def child? (name : String) (cursor : Cursor) : Except CursorError Cursor := cursor.instance? name 0

/-- A cursor at every child with the name. -/
def family (name : String) (cursor : Cursor) : List Cursor :=
  (List.range (cursor.element.count name)).filterMap fun number =>
    (cursor.instance? name number).toOption

/-- The number in brackets: digits, possibly after a plus, below 2^64. -/
def readNumber (cs : List Char) : Option Nat :=
  let unsigned := match cs with
    | '+' :: rest => rest
    | cs => cs
  (Text.numeral? unsigned).filter (· < Nat.pow 2 64)

/-- Follows one step that is not empty; the whole path is named in failures. -/
def follow (path : String) (step : List Char) (cursor : Cursor) : Except CursorError Cursor :=
  let text := String.ofList step
  match Text.cutAtFirst '[' step with
  | none => cursor.child? text
  | some (name, after) =>
    if ']' ∈ name then .error (.crossedBrackets path text)
    else
      match Text.cutAtFirst ']' after with
      | none => .error (.unclosedBracket path text)
      | some (inner, _) =>
        match readNumber inner with
        | none => .error (.invalidIndex path text)
        | some number => cursor.instance? (String.ofList name) number

/-- Follows steps in order, empty ones passed over. -/
def followAll (path : String) : List (List Char) → Cursor → Except CursorError Cursor
  | [], cursor => .ok cursor
  | step :: rest, cursor =>
    if step = [] then followAll path rest cursor
    else (follow path step cursor).bind (followAll path rest)

/-- Follows the steps between the slashes of a path. -/
def navigate (path : String) (cursor : Cursor) : Except CursorError Cursor :=
  followAll path (Text.splitAtEach '/' path.toList) cursor

end Cursor

end InvoiceXml
