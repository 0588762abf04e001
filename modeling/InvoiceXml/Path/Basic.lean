import InvoiceXml.Text.Numeral
import InvoiceXml.Text.Split

/-!
# Location paths

A path designates an element or an attribute of the document: the names of the elements from the outside in,
each with an optional selector, and at most one attribute at the end. A selector is the number of an instance
among the siblings of one name, or a group marker, whose number is bound while the document is built.

`render` writes a path. `join` continues a path: an absolute continuation stands for itself
(`join_of_absolute`), a relative one is appended to the steps, and what the path designated as an attribute
gives way to the element that carries it.
-/

namespace InvoiceXml

/-- Which of the siblings of one name a step means. -/
inductive Selector where
  | index (n : Nat)
  | group (name : String)
deriving DecidableEq, Repr

/-- One element on the way. -/
structure Step where
  name : String
  selector : Option Selector := none
deriving DecidableEq, Repr

/-- The way to an element, or to an attribute of it. -/
structure Path where
  absolute : Bool
  steps : List Step
  attr : Option String := none
deriving DecidableEq, Repr

/-- What is wrong with the text of a path, or with a path where an absolute one is needed. -/
inductive PathFault where
  | emptyPath
  | emptyStep
  | attributeNotLast
  | attributeName (name : String)
  | unclosedSelector (part : String)
  | indexRange (digits : String)
  | selectorForm (inner : String)
  | elementName (name : String)
  | noRootElement
  | notAbsolute
deriving DecidableEq, Repr

namespace PathFault

/-- The words for a fault. -/
def message : PathFault → String
  | emptyPath => "empty path"
  | emptyStep => "empty step"
  | attributeNotLast => "attribute must be the last step"
  | attributeName name => "invalid attribute name '" ++ name ++ "'"
  | unclosedSelector part => "unclosed selector in '" ++ part ++ "'"
  | indexRange digits => "index '" ++ digits ++ "' out of range"
  | selectorForm inner => "invalid selector '[" ++ inner ++ "]'"
  | elementName name => "invalid element name '" ++ name ++ "'"
  | noRootElement => "absolute path needs a root element"
  | notAbsolute => "path must be absolute"

end PathFault

namespace Selector

/-- The text between the brackets. -/
def text : Selector → String
  | index n => Text.natText n
  | group name => name

end Selector

namespace Step

/-- The group marker of a step. -/
def marker? (step : Step) : Option String :=
  match step.selector with
  | some (.group name) => some name
  | _ => none

/-- A step as written: the name, and the selector in brackets. -/
def render (step : Step) : String :=
  match step.selector with
  | none => step.name
  | some selector => step.name ++ "[" ++ selector.text ++ "]"

end Step

namespace Path

/-- The group markers of a path, outermost first. -/
def markers (path : Path) : List String := path.steps.filterMap Step.marker?

/-- Whether the path designates an attribute. -/
def isAttribute (path : Path) : Bool := path.attr.isSome

/-- The path that continues at the element a path designates. -/
def join (path relative : Path) : Path :=
  if relative.absolute then relative
  else { absolute := path.absolute, steps := path.steps ++ relative.steps, attr := relative.attr }

/-- The parts of a path between its slashes. -/
def parts (path : Path) : List String :=
  path.steps.map Step.render ++ (path.attr.map ("@" ++ ·)).toList

/-- A path as written. -/
def render (path : Path) : String :=
  (if path.absolute ∧ path.parts ≠ [] then "/" else "") ++ Text.joined "/" path.parts

@[simp] theorem join_of_absolute {relative : Path} (path : Path) (h : relative.absolute = true) :
    path.join relative = relative := by
  simp [join, h]

example : render ⟨true, [⟨"a", none⟩, ⟨"b", some (.index 2)⟩, ⟨"c", some (.group "g")⟩], some "x"⟩ =
    "/a/b[2]/c[g]/@x" := by decide +kernel
example : render ⟨false, [], some "x"⟩ = "@x" := by decide +kernel

end Path

end InvoiceXml
