import InvoiceXml.Element.Basic

/-!
# Walking a tree

A visitor carries a state through a tree: it enters an element, visits the children in order, and leaves the
element, both times with the names of the elements around it from the root. Before each element it is asked
whether to continue; if not, the element is passed over with all it contains, but elements already entered
are still left. It may answer differently when it is asked again, so asking is a step of the state, too.
-/

namespace InvoiceXml.Element

/-- What is done at each element of a walk. -/
structure Visitor (σ : Type) where
  enter : Element → List String → σ → σ
  leave : Element → List String → σ → σ
  ask : σ → Bool × σ

mutual

/-- Walks an element; `around` has the names of the elements that contain it. -/
def walkFrom {σ : Type} (visitor : Visitor σ) (around : List String) : Element → σ → σ
  | { name, attrs, text, children }, state =>
    match visitor.ask state with
    | (false, state) => state
    | (true, state) =>
      let element : Element := { name, attrs, text, children }
      visitor.leave element around
        (walkAll visitor (around ++ [name]) children (visitor.enter element around state))

def walkAll {σ : Type} (visitor : Visitor σ) (around : List String) : List Element → σ → σ
  | [], state => state
  | element :: rest, state => walkAll visitor around rest (walkFrom visitor around element state)

end

/-- Walks a tree from its root. -/
def walk {σ : Type} (visitor : Visitor σ) (root : Element) (state : σ) : σ :=
  walkFrom visitor [] root state

/-- A moment of a walk: an element is entered or left. -/
inductive Event where
  | enter (name : String) (around : List String)
  | leave (name : String) (around : List String)
deriving DecidableEq, Repr

/-- What a recording walk has seen: the moments, latest first, and how many elements were entered. -/
structure Recording where
  latestFirst : List Event := []
  entered : Nat := 0

/-- Records every moment, and continues while fewer elements than the limit have been entered. -/
def recorder (limit : Option Nat) : Visitor Recording where
  enter element around state := ⟨.enter element.name around :: state.latestFirst, state.entered + 1⟩
  leave element around state := ⟨.leave element.name around :: state.latestFirst, state.entered⟩
  ask state := (match limit with
    | none => true
    | some limit => state.entered < limit, state)

/-- The moments of a walk that enters at most so many elements. -/
def events (limit : Option Nat) (root : Element) : List Event :=
  (walk (recorder limit) root {}).latestFirst.reverse

/-- Counts the elements entered. -/
def counter : Visitor Nat where
  enter _ _ n := n + 1
  leave _ _ n := n
  ask n := (true, n)

mutual

theorem walkFrom_counter (around : List String) :
    ∀ (element : Element) (n : Nat), walkFrom counter around element n = n + element.size
  | { name, attrs, text, children }, n => by
    simp only [walkFrom, size]
    show walkAll counter _ children (n + 1) = _
    rw [walkAll_counter]
    omega

theorem walkAll_counter (around : List String) :
    ∀ (elements : List Element) (n : Nat), walkAll counter around elements n = n + sizeAll elements
  | [], n => rfl
  | element :: rest, n => by
    simp only [walkAll, sizeAll]
    rw [walkFrom_counter, walkAll_counter]
    omega

end

/-- A walk without limit enters every element once. -/
theorem walk_counter (root : Element) : walk counter root 0 = root.size := by
  rw [walk, walkFrom_counter, Nat.zero_add]

end InvoiceXml.Element
