import InvoiceXml.Element.Walk
import InvoiceXml.Proofs.Element.Address
import Mathlib.Data.List.Forall2

/-!
# Walks are balanced

A visitor is told the elements and the names around them, not where the elements stand. Here each
walk gets a list of moments (`momentsFrom`), which say at which address something is entered or
left; what the visitor is asked to do, in order (`Visitor.recorded`), is what these moments say
(`exists_calls_walkFrom`).

The moments of a walk are brackets within brackets (`Brackets`): below one parent, each child that
is entered opens one, what is entered of its children comes next, and it is closed before the
children after it. All that is said of walks follows from this form by induction.

* `isTour_momentsFrom`: an element is entered while those around it are open, and is left once,
  after all that is below it;
* `entered_momentsFrom_sublist`: elements are entered in document order;
* `entersUpTo_of_stopsAt`: a visitor that stops at a number of elements enters so many of the first;
* **`walk_isTour`**: all of this for every tree and visitor.
-/

namespace InvoiceXml.Element

/-! ### Places of a tree -/

mutual

/-- The addresses of the elements of a tree in document order. -/
def addresses : Element → List (List Nat)
  | { children, .. } => [] :: addressesFrom 0 children

/-- The addresses of children and of what is below them; the index is that of the first child. -/
def addressesFrom (index : Nat) : List Element → List (List Nat)
  | [] => []
  | element :: rest => (addresses element).map (index :: ·) ++ addressesFrom (index + 1) rest

end

/-- The names of the elements around an address, from the root. -/
def namesAround : List Nat → Element → List String
  | [], _ => []
  | index :: rest, element => element.name :: (element.children[index]?.elim [] (namesAround rest))

theorem addresses_eq (element : Element) : element.addresses = [] :: addressesFrom 0 element.children := by
  cases element
  rw [addresses]

theorem size_eq (element : Element) : element.size = sizeAll element.children + 1 := by
  cases element
  rw [size]

theorem length_addressesFrom {elements : List Element}
    (h : ∀ element ∈ elements, element.addresses.length = element.size) (index : Nat) :
    (addressesFrom index elements).length = sizeAll elements := by
  induction elements generalizing index with
  | nil => rfl
  | cons element rest ih =>
    obtain ⟨hfirst, hrest⟩ := List.forall_mem_cons.mp h
    rw [addressesFrom, sizeAll, List.length_append, List.length_map, hfirst, ih hrest]

/-- Each element has one address. -/
theorem length_addresses (element : Element) : element.addresses.length = element.size := by
  induction element using induction_on_children with
  | step element ih => rw [addresses_eq, size_eq, List.length_cons, length_addressesFrom ih]

theorem at?_append_singleton {root : Element} {address : List Nat} (index : Nat) :
    root.at? (address ++ [index]) = (root.at? address).bind (·.children[index]?) := by
  induction address generalizing root with
  | nil => cases h : root.children[index]? <;> simp [at?, h]
  | cons first rest ih =>
    rw [List.cons_append, at?, at?]
    cases root.children[first]? with
    | none => rfl
    | some child => exact ih

theorem namesAround_append_singleton {root element : Element} {address : List Nat}
    (h : root.at? address = some element) (index : Nat) :
    root.namesAround (address ++ [index]) = root.namesAround address ++ [element.name] := by
  induction address generalizing root with
  | nil =>
    obtain rfl := Option.some.inj h
    cases hchild : root.children[index]? <;> simp [namesAround, hchild]
  | cons first rest ih =>
    rw [at?] at h
    obtain ⟨child, hchild, h⟩ := Option.bind_eq_some_iff.mp h
    rw [List.cons_append, namesAround, namesAround, hchild, Option.elim_some, Option.elim_some,
      ih h, List.cons_append]

/-! ### Moments -/

/-- A moment of a walk: the element at an address is entered or left. -/
inductive Moment where
  | enter (address : List Nat)
  | leave (address : List Nat)
deriving DecidableEq, Repr

namespace Moment

/-- The address of the element. -/
def address : Moment → List Nat
  | enter address | leave address => address

/-- The address of an element that is entered. -/
def entered? : Moment → Option (List Nat)
  | enter address => some address
  | leave _ => none

end Moment

variable {σ : Type}

mutual

/-- The moments of the walk of an element at an address. -/
def momentsFrom (visitor : Visitor σ) (around : List String) (address : List Nat) : Element → σ → List Moment
  | { name, attrs, text, children }, state =>
    match visitor.ask state with
    | (false, _) => []
    | (true, state) =>
      let element : Element := { name, attrs, text, children }
      .enter address ::
        (momentsAll visitor (around ++ [name]) address 0 children (visitor.enter element around state) ++
          [.leave address])

/-- The moments of the walk of children; the index is that of the first. -/
def momentsAll (visitor : Visitor σ) (around : List String) (parent : List Nat) (index : Nat) :
    List Element → σ → List Moment
  | [], _ => []
  | element :: rest, state =>
    momentsFrom visitor around (parent ++ [index]) element state ++
      momentsAll visitor around parent (index + 1) rest (walkFrom visitor around element state)

end

section Answers

variable {visitor : Visitor σ} {state next : σ} (around : List String) (address : List Nat)
  (element : Element)

theorem walkFrom_of_stops (h : visitor.ask state = (false, next)) :
    walkFrom visitor around element state = next := by
  cases element
  simp only [walkFrom, h]

theorem walkFrom_of_continues (h : visitor.ask state = (true, next)) :
    walkFrom visitor around element state =
      visitor.leave element around
        (walkAll visitor (around ++ [element.name]) element.children
          (visitor.enter element around next)) := by
  cases element
  simp only [walkFrom, h]

theorem momentsFrom_of_stops (h : visitor.ask state = (false, next)) :
    momentsFrom visitor around address element state = [] := by
  cases element
  simp only [momentsFrom, h]

theorem momentsFrom_of_continues (h : visitor.ask state = (true, next)) :
    momentsFrom visitor around address element state =
      .enter address ::
        (momentsAll visitor (around ++ [element.name]) address 0 element.children
          (visitor.enter element around next) ++ [.leave address]) := by
  cases element
  simp only [momentsFrom, h]

end Answers

/-! ### What a visitor is asked to do -/

/-- What a visitor is asked to do: to enter or leave an element, with the names around it. -/
inductive Call where
  | enter (element : Element) (around : List String)
  | leave (element : Element) (around : List String)

/-- A visitor that does what another one does, and writes down what it is asked to do. -/
def Visitor.recorded (visitor : Visitor σ) : Visitor (σ × List Call) where
  enter element around state := (visitor.enter element around state.1, state.2 ++ [.enter element around])
  leave element around state := (visitor.leave element around state.1, state.2 ++ [.leave element around])
  ask state := ((visitor.ask state.1).1, (visitor.ask state.1).2, state.2)

/-- Whether a call is what a moment says: it is about the element at the address, and has the names
around it. -/
inductive IsCall (root : Element) : Moment → Call → Prop
  | enter {address element} : root.at? address = some element →
      IsCall root (.enter address) (.enter element (root.namesAround address))
  | leave {address element} : root.at? address = some element →
      IsCall root (.leave address) (.leave element (root.namesAround address))

/-- Whether the walks of an element call a visitor as their moments say, wherever the element stands
in the tree. -/
def CallsAsMoments (visitor : Visitor σ) (root element : Element) : Prop :=
  ∀ {address : List Nat} (state : σ) (log : List Call), root.at? address = some element →
    ∃ calls, walkFrom visitor.recorded (root.namesAround address) element (state, log) =
        (walkFrom visitor (root.namesAround address) element state, log ++ calls) ∧
      List.Forall₂ (IsCall root) (momentsFrom visitor (root.namesAround address) address element state) calls

theorem exists_calls_walkAll {visitor : Visitor σ} {root parent : Element} {address : List Nat}
    {elements : List Element} (hcalls : ∀ element ∈ elements, CallsAsMoments visitor root element)
    (hparent : root.at? address = some parent) {index : Nat}
    (hplaces : parent.children.drop index = elements) (state : σ) (log : List Call) :
    ∃ calls, walkAll visitor.recorded (root.namesAround address ++ [parent.name]) elements (state, log) =
        (walkAll visitor (root.namesAround address ++ [parent.name]) elements state, log ++ calls) ∧
      List.Forall₂ (IsCall root)
        (momentsAll visitor (root.namesAround address ++ [parent.name]) address index elements state)
        calls := by
  induction elements generalizing index state log with
  | nil => exact ⟨[], by rw [walkAll, walkAll, List.append_nil], .nil⟩
  | cons element rest ih =>
    obtain ⟨hfirst, hrest⟩ := List.forall_mem_cons.mp hcalls
    have hat : root.at? (address ++ [index]) = some element := by
      rw [at?_append_singleton, hparent, Option.bind_some, ← List.head?_drop, hplaces, List.head?_cons]
    have hdrop : parent.children.drop (index + 1) = rest := by
      rw [← List.tail_drop, hplaces, List.tail_cons]
    obtain ⟨first, hwalk, hmoments⟩ := hfirst state log hat
    rw [namesAround_append_singleton hparent] at hwalk hmoments
    obtain ⟨others, hothers, hmore⟩ :=
      ih hrest hdrop (walkFrom visitor (root.namesAround address ++ [parent.name]) element state)
        (log ++ first)
    refine ⟨first ++ others, ?_, List.rel_append hmoments hmore⟩
    rw [walkAll, walkAll, hwalk, hothers, List.append_assoc]

/-- **A visitor is called as the moments say.** -/
theorem exists_calls_walkFrom (visitor : Visitor σ) (root element : Element) :
    CallsAsMoments visitor root element := by
  induction element using induction_on_children with
  | step element ih =>
    intro address state log hat
    cases hask : visitor.ask state with
    | mk continues next =>
      have hrecorded : visitor.recorded.ask (state, log) = (continues, next, log) := by
        simp only [Visitor.recorded, hask]
      cases continues with
      | false =>
        refine ⟨[], ?_, ?_⟩
        · rw [walkFrom_of_stops _ _ hrecorded, walkFrom_of_stops _ _ hask, List.append_nil]
        · rw [momentsFrom_of_stops _ _ _ hask]
          exact .nil
      | true =>
        obtain ⟨inner, hwalk, hmoments⟩ := exists_calls_walkAll ih hat (List.drop_zero)
          (visitor.enter element (root.namesAround address) next)
          (log ++ [.enter element (root.namesAround address)])
        refine ⟨.enter element (root.namesAround address) ::
          (inner ++ [.leave element (root.namesAround address)]), ?_, ?_⟩
        · rw [walkFrom_of_continues _ _ hrecorded, walkFrom_of_continues _ _ hask]
          show visitor.recorded.leave element _ (walkAll visitor.recorded _ element.children
            (visitor.enter element _ next, log ++ [.enter element (root.namesAround address)])) = _
          rw [hwalk]
          simp [Visitor.recorded]
        · rw [momentsFrom_of_continues _ _ _ hask]
          exact .cons (.enter hat) (List.rel_append hmoments (.cons (.leave hat) .nil))

/-! ### Brackets within brackets -/

/-- Moments of children of one parent from an index on: each child is passed over, or is entered,
walked and left before the next. -/
inductive Brackets : (parent : List Nat) → (index : Nat) → List Moment → Prop
  | nil {parent index} : Brackets parent index []
  | skip {parent index moments} : Brackets parent (index + 1) moments → Brackets parent index moments
  | visit {parent index inside after} : Brackets (parent ++ [index]) 0 inside →
    Brackets parent (index + 1) after →
      Brackets parent index (.enter (parent ++ [index]) :: (inside ++ .leave (parent ++ [index]) :: after))

theorem brackets_momentsAll {visitor : Visitor σ} {elements : List Element}
    (h : ∀ element ∈ elements, ∀ around address state, momentsFrom visitor around address element state = [] ∨
      ∃ inside, Brackets address 0 inside ∧
        momentsFrom visitor around address element state = .enter address :: (inside ++ [.leave address]))
    (around : List String) (parent : List Nat) (index : Nat) (state : σ) :
    Brackets parent index (momentsAll visitor around parent index elements state) := by
  induction elements generalizing index state with
  | nil => exact .nil
  | cons element rest ih =>
    obtain ⟨hfirst, hrest⟩ := List.forall_mem_cons.mp h
    have hafter := ih hrest (index + 1) (walkFrom visitor around element state)
    rw [momentsAll]
    rcases hfirst around (parent ++ [index]) state with hnone | ⟨inside, hinside, hvisit⟩
    · rw [hnone, List.nil_append]
      exact .skip hafter
    · rw [hvisit, List.cons_append, List.append_assoc, List.singleton_append]
      exact .visit hinside hafter

/-- The walk of an element passes it over, or has brackets around those of its children. -/
theorem momentsFrom_eq_nil_or (visitor : Visitor σ) (element : Element) :
    ∀ around address state, momentsFrom visitor around address element state = [] ∨
      ∃ inside, Brackets address 0 inside ∧
        momentsFrom visitor around address element state =
          .enter address :: (inside ++ [.leave address]) := by
  induction element using induction_on_children with
  | step element ih =>
    intro around address state
    cases hask : visitor.ask state with
    | mk continues next =>
      cases continues with
      | false => exact .inl (momentsFrom_of_stops _ _ _ hask)
      | true => exact .inr ⟨_, brackets_momentsAll ih _ _ _ _, momentsFrom_of_continues _ _ _ hask⟩

/-- Below one parent, addresses that go through different children do not extend each other. -/
theorem not_prefix_of_ne {parent rest others : List Nat} {index other : Nat} (h : index ≠ other) :
    ¬parent ++ index :: rest <+: parent ++ other :: others := by
  rw [List.prefix_append_right_inj, List.cons_prefix_cons]
  exact fun hprefix => h hprefix.1

namespace Brackets

variable {parent : List Nat} {index : Nat} {moments : List Moment}

/-- All moments are of children from the index on, or of elements below them. -/
theorem exists_address (h : Brackets parent index moments) :
    ∀ moment ∈ moments, ∃ child rest, index ≤ child ∧ moment.address = parent ++ child :: rest := by
  induction h with
  | nil => simp
  | skip _ ih =>
    intro moment hmoment
    obtain ⟨child, rest, hle, haddress⟩ := ih moment hmoment
    exact ⟨child, rest, Nat.le_of_succ_le hle, haddress⟩
  | @visit parent index inside after _ _ ihInside ihAfter =>
    intro moment hmoment
    rcases List.mem_cons.mp hmoment with rfl | hmoment
    · exact ⟨index, [], Nat.le_refl index, rfl⟩
    rcases List.mem_append.mp hmoment with hmoment | hmoment
    · obtain ⟨child, rest, -, haddress⟩ := ihInside moment hmoment
      exact ⟨index, child :: rest, Nat.le_refl index,
        by rw [haddress, List.append_assoc, List.singleton_append]⟩
    rcases List.mem_cons.mp hmoment with rfl | hmoment
    · exact ⟨index, [], Nat.le_refl index, rfl⟩
    · obtain ⟨child, rest, hle, haddress⟩ := ihAfter moment hmoment
      exact ⟨child, rest, Nat.le_of_succ_le hle, haddress⟩

/-- What is entered or left inside is below the parent. -/
theorem isBelow (h : Brackets parent index moments) :
    ∀ moment ∈ moments, parent <+: moment.address ∧ parent ≠ moment.address := by
  intro moment hmoment
  obtain ⟨child, rest, -, haddress⟩ := h.exists_address moment hmoment
  rw [haddress]
  exact ⟨List.prefix_append _ _, by simp⟩

end Brackets

/-- Whether moments are in brackets: each element that occurs is entered once and left once, in
between are moments of elements below it, and no others are. -/
def InBrackets (moments : List Moment) : Prop :=
  ∀ moment ∈ moments, ∃ before inside after,
    moments = before ++ .enter moment.address :: (inside ++ .leave moment.address :: after) ∧
      (∀ other ∈ inside, moment.address <+: other.address ∧ moment.address ≠ other.address) ∧
      ∀ other ∈ before ++ after, ¬moment.address <+: other.address

/-- A bracket may be put around brackets below it, and others behind it that are of different elements. -/
theorem InBrackets.visit {top : List Nat} {inside after : List Moment} (hinside : InBrackets inside)
    (hafter : InBrackets after) (hbelow : ∀ other ∈ inside, top <+: other.address ∧ top ≠ other.address)
    (hapart : ∀ other ∈ after, ∀ moment, top <+: moment → ¬moment <+: other.address ∧
      ¬other.address <+: moment) :
    InBrackets (.enter top :: (inside ++ .leave top :: after)) := by
  have hself : ∀ other ∈ after, ¬top <+: other.address := fun other hother =>
    (hapart other hother top (List.prefix_refl top)).1
  have htop : ∃ before within behind, .enter top :: (inside ++ .leave top :: after) =
      before ++ .enter top :: (within ++ .leave top :: behind) ∧
        (∀ other ∈ within, top <+: other.address ∧ top ≠ other.address) ∧
        ∀ other ∈ before ++ behind, ¬top <+: other.address :=
    ⟨[], inside, after, rfl, hbelow, hself⟩
  intro moment hmoment
  rcases List.mem_cons.mp hmoment with rfl | hmoment
  · exact htop
  rcases List.mem_append.mp hmoment with hmoment | hmoment
  · obtain ⟨hunder, hne⟩ := hbelow moment hmoment
    obtain ⟨before, within, behind, hsplit, hwithin, houtside⟩ := hinside moment hmoment
    refine ⟨.enter top :: before, within, behind ++ .leave top :: after, by simp [hsplit], hwithin, ?_⟩
    have habove : ¬moment.address <+: top := fun h =>
      hne (hunder.eq_of_length (Nat.le_antisymm hunder.length_le h.length_le))
    intro other hother
    simp only [List.mem_append, List.mem_cons, List.cons_append] at hother houtside
    rcases hother with rfl | hother | hother | rfl | hother
    · exact habove
    · exact houtside other (.inl hother)
    · exact houtside other (.inr hother)
    · exact habove
    · exact (hapart other hother _ hunder).1
  rcases List.mem_cons.mp hmoment with rfl | hmoment
  · exact htop
  · obtain ⟨before, within, behind, hsplit, hwithin, houtside⟩ := hafter moment hmoment
    refine ⟨.enter top :: (inside ++ .leave top :: before), within, behind, by simp [hsplit], hwithin, ?_⟩
    intro other hother
    simp only [List.mem_append, List.mem_cons, List.cons_append] at hother houtside
    rcases hother with rfl | (hother | rfl | hother) | hother
    · exact (hapart moment hmoment _ (List.prefix_refl top)).2
    · exact (hapart moment hmoment _ (hbelow other hother).1).2
    · exact (hapart moment hmoment _ (List.prefix_refl top)).2
    · exact houtside other (.inl hother)
    · exact houtside other (.inr hother)

namespace Brackets

variable {parent : List Nat} {index : Nat} {moments : List Moment}

theorem inBrackets (h : Brackets parent index moments) : InBrackets moments := by
  induction h with
  | nil => simp [InBrackets]
  | skip _ ih => exact ih
  | visit hinside hafter ihInside ihAfter =>
    refine ihInside.visit ihAfter hinside.isBelow fun other hother moment hmoment => ?_
    obtain ⟨child, others, hle, haddress⟩ := hafter.exists_address other hother
    obtain ⟨rest, rfl⟩ := hmoment
    rw [haddress, List.append_assoc, List.singleton_append]
    exact ⟨not_prefix_of_ne (by omega), not_prefix_of_ne (by omega)⟩

/-- The elements around one that occurs are entered, up to the parent. -/
theorem enter_mem (h : Brackets parent index moments) :
    ∀ moment ∈ moments, ∀ outer, outer <+: moment.address → parent.length < outer.length →
      .enter outer ∈ moments := by
  induction h with
  | nil => simp
  | skip _ ih => exact ih
  | @visit parent index inside after hinside _ ihInside ihAfter =>
    intro moment hmoment outer houter hlength
    have htop : outer.length ≤ (parent ++ [index]).length → parent ++ [index] <+: moment.address →
        .enter outer ∈ Moment.enter (parent ++ [index]) ::
            (inside ++ .leave (parent ++ [index]) :: after) := by
      intro hle hunder
      have hsame : outer.length = (parent ++ [index]).length := by
        rw [List.length_append, List.length_singleton] at hle ⊢
        omega
      obtain rfl := (List.prefix_of_prefix_length_le houter hunder hle).eq_of_length hsame
      exact List.mem_cons_self
    rcases List.mem_cons.mp hmoment with rfl | hmoment
    · exact htop houter.length_le (List.prefix_refl _)
    rcases List.mem_append.mp hmoment with hmoment | hmoment
    · rcases Nat.lt_or_ge (parent ++ [index]).length outer.length with hlt | hle
      · exact List.mem_cons_of_mem _ (List.mem_append_left _ (ihInside moment hmoment outer houter hlt))
      · exact htop hle (hinside.isBelow moment hmoment).1
    rcases List.mem_cons.mp hmoment with rfl | hmoment
    · exact htop houter.length_le (List.prefix_refl _)
    · have hafter := ihAfter moment hmoment outer houter hlength
      exact List.mem_cons_of_mem _ (List.mem_append_right _ (List.mem_cons_of_mem _ hafter))

end Brackets

/-! ### Tours -/

/-- Whether moments are those of a tour through some elements of a tree. -/
structure IsTour (moments : List Moment) : Prop where
  /-- Each element is entered once and left once, after all elements below it that are entered. -/
  inBrackets : InBrackets moments
  /-- An element is entered while all elements around it are open. -/
  opened : ∀ before address after, moments = before ++ .enter address :: after →
    ∀ outer, outer <+: address → outer ≠ address → .enter outer ∈ before ∧ .leave outer ∉ before

/-- What is neither a bracket nor outside of it stands inside. -/
theorem exists_inner {α : Type} {a opening closing : α} {before after outside inside behind : List α}
    (h : before ++ a :: after = outside ++ opening :: (inside ++ closing :: behind)) (houtside : a ∉ outside)
    (hopening : a ≠ opening) (hclosing : a ≠ closing) (hbehind : a ∉ behind) :
    ∃ inner, before = outside ++ opening :: inner ∧ inner ⊆ inside := by
  rcases List.append_eq_append_iff.mp h with ⟨rest, rfl, hrest⟩ | ⟨rest, rfl, hrest⟩
  · cases rest with
    | nil => exact absurd (List.cons.inj hrest).1 hopening
    | cons b rest =>
      obtain ⟨rfl, -⟩ := List.cons.inj hrest
      exact absurd (List.mem_append_right _ List.mem_cons_self) houtside
  · cases rest with
    | nil => exact absurd (List.cons.inj hrest).1.symm hopening
    | cons b inner =>
      obtain ⟨rfl, hinner⟩ := List.cons.inj hrest
      refine ⟨inner, rfl, ?_⟩
      rcases List.append_eq_append_iff.mp hinner with ⟨further, rfl, hfurther⟩ | ⟨further, rfl, hfurther⟩
      · cases further with
        | nil => exact absurd (List.cons.inj hfurther).1.symm hclosing
        | cons b further =>
          obtain ⟨-, rfl⟩ := List.cons.inj hfurther
          exact absurd (List.mem_append_right _ List.mem_cons_self) hbehind
      · exact List.subset_append_left _ _

theorem isTour_of_inBrackets {moments : List Moment} (h : InBrackets moments)
    (haround : ∀ moment ∈ moments, ∀ outer, outer <+: moment.address → .enter outer ∈ moments) :
    IsTour moments := by
  refine ⟨h, ?_⟩
  rintro before address after rfl outer houter hne
  have hopened := haround (.enter address) (by simp) outer houter
  obtain ⟨outside, inside, behind, hsplit, hinside, hapart⟩ := h _ hopened
  have hnot : ∀ other ∈ outside ++ behind, .enter address ≠ other := by
    rintro other hother rfl
    exact hapart _ hother houter
  obtain ⟨inner, rfl, hinner⟩ := exists_inner hsplit (fun hmem => hnot _ (List.mem_append_left _ hmem) rfl)
    (fun heq => hne (Moment.enter.inj heq).symm) nofun (fun hmem => hnot _ (List.mem_append_right _ hmem) rfl)
  refine ⟨by simp [Moment.address], fun hleft => ?_⟩
  rcases List.mem_append.mp hleft with hleft | hleft
  · exact hapart _ (List.mem_append_left _ hleft) (List.prefix_refl _)
  rcases List.mem_cons.mp hleft with hleft | hleft
  · cases hleft
  · exact (hinside _ (hinner hleft)).2 rfl

/-- The moments of a walk from the root are those of a tour. -/
theorem isTour_momentsFrom (visitor : Visitor σ) (root : Element) (state : σ) :
    IsTour (momentsFrom visitor [] [] root state) := by
  rcases momentsFrom_eq_nil_or visitor root [] [] state with hnone | ⟨inside, hinside, hvisit⟩
  · rw [hnone]
    exact ⟨by simp [InBrackets], by simp⟩
  · rw [hvisit]
    refine isTour_of_inBrackets (hinside.inBrackets.visit (by simp [InBrackets]) hinside.isBelow (by simp)) ?_
    intro moment hmoment outer houter
    rcases outer with _ | ⟨index, rest⟩
    · exact List.mem_cons_self
    · rcases List.mem_cons.mp hmoment with rfl | hmoment
      · cases List.prefix_nil.mp houter
      rcases List.mem_append.mp hmoment with hmoment | hmoment
      · have hentered := hinside.enter_mem moment hmoment _ houter (Nat.zero_lt_succ _)
        exact List.mem_cons_of_mem _ (List.mem_append_left _ hentered)
      · obtain rfl := List.mem_singleton.mp hmoment
        cases List.prefix_nil.mp houter

/-! ### Document order -/

/-- The addresses of the elements that are entered, in order. -/
def entered (moments : List Moment) : List (List Nat) := moments.filterMap Moment.entered?

theorem entered_append (first second : List Moment) :
    entered (first ++ second) = entered first ++ entered second :=
  List.filterMap_append

theorem entered_bracket (address : List Nat) (inside : List Moment) :
    entered (.enter address :: (inside ++ [.leave address])) = address :: entered inside := by
  show address :: entered (inside ++ [.leave address]) = address :: entered inside
  rw [entered_append]
  exact congrArg _ (List.append_nil _)

theorem map_addressesFrom_cons (parent : List Nat) (index : Nat) (element : Element) (rest : List Element) :
    (addressesFrom index (element :: rest)).map (parent ++ ·) =
      element.addresses.map (parent ++ [index] ++ ·) ++
        (addressesFrom (index + 1) rest).map (parent ++ ·) := by
  simp [addressesFrom, Function.comp_def]

theorem entered_momentsAll_sublist {visitor : Visitor σ} {elements : List Element}
    (h : ∀ element ∈ elements, ∀ around address state,
      (entered (momentsFrom visitor around address element state)).Sublist
        (element.addresses.map (address ++ ·)))
    (around : List String) (parent : List Nat) (index : Nat) (state : σ) :
    (entered (momentsAll visitor around parent index elements state)).Sublist
      ((addressesFrom index elements).map (parent ++ ·)) := by
  induction elements generalizing index state with
  | nil => exact List.Sublist.refl []
  | cons element rest ih =>
    obtain ⟨hfirst, hrest⟩ := List.forall_mem_cons.mp h
    rw [momentsAll, entered_append, map_addressesFrom_cons]
    exact (hfirst _ _ _).append (ih hrest _ _)

/-- Elements are entered in document order. -/
theorem entered_momentsFrom_sublist (visitor : Visitor σ) (element : Element) : ∀ around address state,
    (entered (momentsFrom visitor around address element state)).Sublist
      (element.addresses.map (address ++ ·)) := by
  induction element using induction_on_children with
  | step element ih =>
    intro around address state
    cases hask : visitor.ask state with
    | mk continues next =>
      cases continues with
      | false =>
        rw [momentsFrom_of_stops _ _ _ hask]
        exact List.nil_sublist _
      | true =>
        rw [momentsFrom_of_continues _ _ _ hask, entered_bracket, addresses_eq, List.map_cons,
          List.append_nil]
        exact (entered_momentsAll_sublist ih _ _ _ _).cons_cons address

/-! ### Visitors that stop -/

/-- Whether a visitor, which knows how many elements were entered, continues while they are fewer
than a limit. -/
structure Visitor.StopsAt (limit : Nat) (count : σ → Nat) (visitor : Visitor σ) : Prop where
  answer : ∀ state, (visitor.ask state).1 = decide (count state < limit)
  ask : ∀ state, count (visitor.ask state).2 = count state
  enter : ∀ element around state, count (visitor.enter element around state) = count state + 1
  leave : ∀ element around state, count (visitor.leave element around state) = count state

/-- Whether the walks of an element enter so many of its elements as the limit leaves, and count them. -/
def EntersUpTo (limit : Nat) (count : σ → Nat) (visitor : Visitor σ) (element : Element) : Prop :=
  ∀ around address state,
    entered (momentsFrom visitor around address element state) =
        (element.addresses.map (address ++ ·)).take (limit - count state) ∧
      count (walkFrom visitor around element state) = count state + min (limit - count state) element.size

section StopsAt

variable {limit : Nat} {count : σ → Nat} {visitor : Visitor σ}

theorem entersUpTo_walkAll {elements : List Element}
    (h : ∀ element ∈ elements, EntersUpTo limit count visitor element) (around : List String)
    (parent : List Nat) (index : Nat) (state : σ) :
    entered (momentsAll visitor around parent index elements state) =
        ((addressesFrom index elements).map (parent ++ ·)).take (limit - count state) ∧
      count (walkAll visitor around elements state) =
        count state + min (limit - count state) (sizeAll elements) := by
  induction elements generalizing index state with
  | nil => exact ⟨by simp [momentsAll, addressesFrom, entered], by simp [walkAll, sizeAll]⟩
  | cons element rest ih =>
    obtain ⟨hfirst, hrest⟩ := List.forall_mem_cons.mp h
    obtain ⟨hentered, hcount⟩ := hfirst around (parent ++ [index]) state
    obtain ⟨hothers, hmore⟩ := ih hrest (index + 1) (walkFrom visitor around element state)
    constructor
    · have hleft : limit - count (walkFrom visitor around element state) =
          limit - count state - element.size := by
        omega
      rw [momentsAll, entered_append, hentered, hothers, hleft, map_addressesFrom_cons, List.take_append,
        List.length_map, length_addresses]
    · rw [walkAll, sizeAll, hmore]
      omega

/-- A visitor that stops at a number of elements enters so many of the first. -/
theorem entersUpTo_of_stopsAt (hstops : visitor.StopsAt limit count) (element : Element) :
    EntersUpTo limit count visitor element := by
  induction element using induction_on_children with
  | step element ih =>
    intro around address state
    have hanswer := hstops.answer state
    have hcount := hstops.ask state
    cases hask : visitor.ask state with
    | mk continues next =>
      rw [hask] at hanswer hcount
      cases continues with
      | false =>
        have hfull : limit - count state = 0 :=
          Nat.sub_eq_zero_of_le (Nat.le_of_not_lt (of_decide_eq_false hanswer.symm))
        rw [momentsFrom_of_stops _ _ _ hask, walkFrom_of_stops _ _ hask, hfull, hcount]
        exact ⟨rfl, by simp⟩
      | true =>
        have hlt : count state < limit := of_decide_eq_true hanswer.symm
        obtain ⟨hentered, hmore⟩ :=
          entersUpTo_walkAll ih (around ++ [element.name]) address 0 (visitor.enter element around next)
        have henter : count (visitor.enter element around next) = count state + 1 := by
          rw [hstops.enter, hcount]
        rw [henter] at hentered hmore
        rw [momentsFrom_of_continues _ _ _ hask, walkFrom_of_continues _ _ hask, entered_bracket,
          hstops.leave, hmore, size_eq, addresses_eq, List.map_cons, List.append_nil, hentered]
        constructor
        · have hleft : limit - count state = limit - (count state + 1) + 1 := by omega
          rw [hleft, List.take_succ_cons]
        · omega

end StopsAt

/-- **Walks are balanced and stop cleanly.** What a visitor is asked to do on the walk of a tree is
what the moments of a tour through the tree say, and the elements of the tour are entered in
document order. A visitor that continues while fewer elements than a limit have been entered is led
to the first ones of the tree, up to the limit. -/
theorem walk_isTour (visitor : Visitor σ) (root : Element) (state : σ) :
    ∃ moments calls,
      walk visitor.recorded root (state, []) = (walk visitor root state, calls) ∧
      List.Forall₂ (IsCall root) moments calls ∧
      IsTour moments ∧
      (entered moments).Sublist root.addresses ∧
      ∀ limit count, visitor.StopsAt limit count → count state = 0 →
        entered moments = root.addresses.take (min limit root.size) := by
  have hat : root.at? [] = some root := rfl
  obtain ⟨calls, hwalk, hcalls⟩ := exists_calls_walkFrom visitor root root state [] hat
  refine ⟨momentsFrom visitor [] [] root state, calls, hwalk, hcalls,
    isTour_momentsFrom visitor root state, ?_, ?_⟩
  · simpa using entered_momentsFrom_sublist visitor root [] [] state
  · intro limit count hstops hzero
    obtain ⟨hentered, -⟩ := entersUpTo_of_stopsAt hstops root [] [] state
    rw [hentered, hzero, Nat.sub_zero, ← length_addresses, ← List.take_eq_take_min]
    simp

/-- The recording visitor counts the elements that it enters. -/
theorem stopsAt_recorder (limit : Nat) : (recorder (some limit)).StopsAt limit Recording.entered :=
  ⟨fun _ => rfl, fun _ => rfl, fun _ _ _ => rfl, fun _ _ _ => rfl⟩

/-- A walk that stops after the root and its first child, of two that have children themselves. -/
theorem walk_isTour_firstTwo :
    let leaf : Element := { name := "ID" }
    let root : Element :=
      { name := "DOC", children := [{ name := "A", children := [leaf] }, { name := "B" }] }
    (recorder (some 2)).StopsAt 2 Recording.entered ∧ ∃ moments calls,
      walk (recorder (some 2)).recorded root ({}, []) = (walk (recorder (some 2)) root {}, calls) ∧
      List.Forall₂ (IsCall root) moments calls ∧ IsTour moments ∧ entered moments = [[], [0]] := by
  intro leaf root
  obtain ⟨moments, calls, hwalk, hcalls, htour, -, hentered⟩ := walk_isTour (recorder (some 2)) root {}
  refine ⟨stopsAt_recorder 2, moments, calls, hwalk, hcalls, htour, ?_⟩
  rw [hentered 2 Recording.entered (stopsAt_recorder 2) rfl]
  decide

end InvoiceXml.Element
