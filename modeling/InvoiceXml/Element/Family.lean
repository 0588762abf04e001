import InvoiceXml.Element.Basic

/-!
# Families of children

Repeated elements are told apart by their number within the family of one name. `extendFamily` adds new
members directly after the last one of the family, or at the end where there is none, so that a family that
is contiguous stays so. `modifyMember` changes one member and nothing else. `updateAlong` follows a way of
names and numbers from an element inwards, creates the members that are missing, and changes the element it
arrives at.
-/

namespace InvoiceXml.Element

/-- Adds elements after the last child with the name, or at the end where there is none. -/
def insertAfterFamily (name : String) (new : List Element) : List Element → List Element
  | [] => new
  | child :: rest =>
    if child.isNamed name ∧ !rest.any (isNamed name) then child :: (new ++ rest)
    else child :: insertAfterFamily name new rest

/-- The children in which the family has at least so many members; the new ones are bare. -/
def extendFamily (name : String) (size : Nat) (children : List Element) : List Element :=
  let missing := size - children.countP (isNamed name)
  if missing = 0 then children
  else insertAfterFamily name (List.replicate missing { name }) children

/-- Changes the member with the number; without one nothing changes. -/
def modifyMember (name : String) (change : Element → Element) : (number : Nat) → List Element → List Element
  | _, [] => []
  | number, child :: rest =>
    if child.isNamed name then
      match number with
      | 0 => change child :: rest
      | number + 1 => child :: modifyMember name change number rest
    else child :: modifyMember name change number rest

/-- The member with the number, and its position among all children. -/
def member? (name : String) (number : Nat) (children : List Element) : Option (Nat × Element) :=
  (children.zipIdx.filter fun entry => entry.1.isNamed name)[number]?.map fun entry => (entry.2, entry.1)

/-- The child with the name and number, created with the members before it where it is missing, and
changed. -/
def updateMember (name : String) (number : Nat) (change : Element → Element) (element : Element) : Element :=
  { element with
    children := modifyMember name change number (extendFamily name (number + 1) element.children) }

/-- Changes the element at the end of a way of names and numbers, created where it is missing. -/
def updateAlong (change : Element → Element) : List (String × Nat) → Element → Element
  | [], element => change element
  | (name, number) :: rest, element => updateMember name number (updateAlong change rest) element

/-! ### Members by position -/

/-- The positions of the children with a name among all children. -/
def positions (name : String) (children : List Element) : List Nat :=
  (children.zipIdx.filter fun entry => entry.1.isNamed name).map (·.2)

/-- Where the next member of a family goes: behind the last position, or at the end where there is none. -/
def nextPosition (positions : List Nat) (children : List Element) : Nat :=
  match positions.getLast? with
  | some last => last + 1
  | none => children.length

/-- Adds bare members until there are more positions than the number, each at the next position. -/
def growFamily (name : String) (number : Nat) (children : List Element) (positions : List Nat) :
    List Element × List Nat :=
  if positions.length ≤ number then
    let next := nextPosition positions children
    growFamily name number (children.insertIdx next { name }) (positions ++ [next])
  else (children, positions)
termination_by number + 1 - positions.length

/-- The element with the child of that name and number, created with the members before it where it is
missing, and the position of that child. -/
def makeMember (name : String) (number : Nat) (element : Element) : Element × Option Nat :=
  let grown := growFamily name number element.children (positions name element.children)
  ({ element with children := grown.1 }, grown.2[number]?)

/-! ### Sizes -/

theorem countP_insertAfterFamily (name : String) (p : Element → Bool) (new children : List Element) :
    (insertAfterFamily name new children).countP p = children.countP p + new.countP p := by
  induction children with
  | nil => simp [insertAfterFamily]
  | cons child rest ih =>
    simp only [insertAfterFamily]
    split
    · simp only [List.countP_cons, List.countP_append]
      omega
    · simp only [List.countP_cons, ih]
      omega

/-- After extending, the family has the size asked for, or more if it had more. -/
theorem countP_extendFamily (name : String) (size : Nat) (children : List Element) :
    (extendFamily name size children).countP (isNamed name) =
      max size (children.countP (isNamed name)) := by
  simp only [extendFamily]
  split
  · omega
  · rw [countP_insertAfterFamily]
    have : (List.replicate (size - children.countP (isNamed name)) ({ name } : Element)).countP
        (isNamed name) = size - children.countP (isNamed name) := by
      rw [List.countP_replicate]
      simp [isNamed]
    omega

end InvoiceXml.Element
