import InvoiceXml.Element.Basic

/-!
# Markup

A tree is written as a sequence of pieces: the declaration, tags and texts. `pieces` lists them in document
order, each tag with its depth, and `source` writes them one after another. An element without text and
children is one empty tag; all others have an opening and a closing tag, with the text before the children.

With an indentation, a tag that follows a tag starts on a line of its own, indented by its depth. After a
text, or at the very start, nothing is put in between, so no text gets blanks it did not have.

In texts and attribute values the five characters that have a meaning in markup are written as entities; all
other characters, and all names, stand as they are.
-/

namespace InvoiceXml

/-- A piece of a written document. -/
inductive Piece where
  | declaration
  | openTag (depth : Nat) (name : String) (attrs : List (String × String))
  | emptyTag (depth : Nat) (name : String) (attrs : List (String × String))
  | closeTag (depth : Nat) (name : String)
  | text (content : String)
deriving DecidableEq, Repr

/-- How a document is written: the width of a level of indentation, where there is one, and whether it
starts with the declaration. -/
structure MarkupOptions where
  indent : Option Nat := none
  declaration : Bool := true
deriving DecidableEq, Repr

namespace Markup

/-- A character of a text or an attribute value as written. -/
def escapedChar (c : Char) : List Char :=
  if c = '<' then ['&', 'l', 't', ';']
  else if c = '>' then ['&', 'g', 't', ';']
  else if c = '&' then ['&', 'a', 'm', 'p', ';']
  else if c = '\'' then ['&', 'a', 'p', 'o', 's', ';']
  else if c = '"' then ['&', 'q', 'u', 'o', 't', ';']
  else [c]

/-- A text or an attribute value as written. -/
def escaped (s : String) : List Char := s.toList.flatMap escapedChar

/-- The attributes of a tag, each with a blank before it. -/
def attrChars (attrs : List (String × String)) : List Char :=
  attrs.flatMap fun attr => ' ' :: (attr.1.toList ++ '=' :: '"' :: (escaped attr.2 ++ ['"']))

/-- The declaration at the start of a document. -/
def declarationText : String := "<?xml version=\"1.0\" encoding=\"UTF-8\"?>"

end Markup

namespace Piece

open Markup

/-- The characters of a piece. -/
def chars : Piece → List Char
  | declaration => declarationText.toList
  | openTag _ name attrs => '<' :: (name.toList ++ attrChars attrs ++ ['>'])
  | emptyTag _ name attrs => '<' :: (name.toList ++ attrChars attrs ++ ['/', '>'])
  | closeTag _ name => '<' :: '/' :: (name.toList ++ ['>'])
  | text content => escaped content

/-- The depth of a tag; the declaration counts as one. A text has none. -/
def depth? : Piece → Option Nat
  | declaration => some 0
  | openTag depth _ _ => some depth
  | emptyTag depth _ _ => some depth
  | closeTag depth _ => some depth
  | text _ => none

end Piece

namespace Element

mutual

/-- The pieces of an element at a depth. -/
def pieces (depth : Nat) : Element → List Piece
  | { name, attrs, text := none, children := [] } => [.emptyTag depth name attrs]
  | { name, attrs, text, children } =>
    .openTag depth name attrs :: ((text.map Piece.text).toList ++ piecesAll (depth + 1) children ++
      [.closeTag depth name])

def piecesAll (depth : Nat) : List Element → List Piece
  | [] => []
  | element :: rest => pieces depth element ++ piecesAll depth rest

end

end Element

namespace Markup

/-- The break before a tag that follows a tag. -/
def lineBreak (indent : Option Nat) (depth : Nat) : List Char :=
  match indent with
  | none => []
  | some width => '\n' :: List.replicate (width * depth) ' '

/-- The pieces one after another; `afterTag` says whether a tag stands before them. -/
def chars (indent : Option Nat) : (afterTag : Bool) → List Piece → List Char
  | _, [] => []
  | afterTag, piece :: rest =>
    match piece.depth? with
    | none => piece.chars ++ chars indent false rest
    | some depth =>
      (if afterTag then lineBreak indent depth else []) ++ piece.chars ++ chars indent true rest

/-- The written document with the given root. -/
def source (options : MarkupOptions) (root : Element) : String :=
  String.ofList (chars options.indent false
    ((if options.declaration then [.declaration] else []) ++ root.pieces 0))

/-- The document on one line, without declaration. -/
def compact (root : Element) : String := source ⟨none, false⟩ root

/-- Without indentation the pieces stand directly one after another. -/
theorem chars_none (afterTag : Bool) (pieces : List Piece) :
    chars none afterTag pieces = pieces.flatMap Piece.chars := by
  induction pieces generalizing afterTag with
  | nil => rfl
  | cons piece rest ih =>
    simp only [chars, List.flatMap_cons, ih, lineBreak, ite_self, List.nil_append]
    cases piece.depth? <;> rfl

example : compact { name := "a", text := some "<&", children := [{ name := "b", attrs := [("k", "\"")] }] } =
    "<a>&lt;&amp;<b k=\"&quot;\"/></a>" := by decide +kernel
example : source ⟨some 2, false⟩ { name := "a", children := [{ name := "b", text := some "" }] } =
    "<a>\n  <b></b>\n</a>" := by decide +kernel

end Markup

end InvoiceXml
