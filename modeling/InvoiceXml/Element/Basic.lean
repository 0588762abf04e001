/-!
# Elements

An element has a name, attributes, possibly text, and child elements, all in document order. Text that is
empty differs from no text. Elements are addressed by the positions of children on the way from the root
(`at?`, `modifyAt`).

Children of one name form a family, and `count` says how large it is. The operations here set single
properties; attributes are replaced in place, so that their order is that of first setting
(`attr?_setAttr_self`).
-/

namespace InvoiceXml

/-- An element of a document. -/
structure Element where
  name : String
  attrs : List (String × String) := []
  text : Option String := none
  children : List Element := []
deriving Inhabited

namespace Element

/-- Sets a value in a list of named values: in place where the name exists, otherwise at the end. -/
def setNamed (name value : String) : List (String × String) → List (String × String)
  | [] => [(name, value)]
  | (n, old) :: rest => if n = name then (n, value) :: rest else (n, old) :: setNamed name value rest

/-- Sets an attribute. -/
def setAttr (name value : String) (element : Element) : Element :=
  { element with attrs := setNamed name value element.attrs }

/-- Sets the text. -/
def setText (text : String) (element : Element) : Element :=
  { element with text := some text }

/-- Adds a child at the end. -/
def addChild (element child : Element) : Element :=
  { element with children := element.children ++ [child] }

/-- The value of the first attribute with the name. -/
def attr? (name : String) (element : Element) : Option String :=
  element.attrs.lookup name

/-- Whether an element has the name. -/
def isNamed (name : String) (element : Element) : Bool := element.name == name

/-- The children with a name. -/
def named (name : String) (element : Element) : List Element :=
  element.children.filter (isNamed name)

/-- The first child with a name. -/
def first? (name : String) (element : Element) : Option Element :=
  element.children.find? (isNamed name)

/-- How many children have a name. -/
def count (name : String) (element : Element) : Nat :=
  element.children.countP (isNamed name)

/-- Whether there is neither text nor attribute nor child. -/
def isBare (element : Element) : Bool :=
  element.text.isNone && element.attrs.isEmpty && element.children.isEmpty

/-- The element at an address. -/
def at? : List Nat → Element → Option Element
  | [], element => some element
  | i :: rest, element => element.children[i]?.bind (at? rest)

/-- Changes the element at an address; an address that leads nowhere changes nothing. -/
def modifyAt (change : Element → Element) : List Nat → Element → Element
  | [], element => change element
  | i :: rest, element => { element with children := element.children.modify i (modifyAt change rest) }

mutual

/-- How many elements there are, the element itself included. -/
def size : Element → Nat
  | { children, .. } => sizeAll children + 1

def sizeAll : List Element → Nat
  | [] => 0
  | element :: rest => size element + sizeAll rest

end

theorem lookup_setNamed_self (name value : String) (pairs : List (String × String)) :
    (setNamed name value pairs).lookup name = some value := by
  induction pairs with
  | nil => simp [setNamed]
  | cons head rest ih =>
    obtain ⟨n, old⟩ := head
    by_cases h : n = name
    · simp [setNamed, h]
    · have hne : (name == n) = false := by simpa using Ne.symm h
      simp [setNamed, h, List.lookup_cons, hne, ih]

theorem attr?_setAttr_self (name value : String) (element : Element) :
    (element.setAttr name value).attr? name = some value :=
  lookup_setNamed_self name value element.attrs

end Element

end InvoiceXml
