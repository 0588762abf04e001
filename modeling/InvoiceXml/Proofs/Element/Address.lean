import InvoiceXml.Element.Family

/-!
# Elements by address

An address is a way of names and numbers from an element inwards; `along?` finds the element at its
end. `updateAlong` creates what is missing on its way, and this file says what that does to every
address at once.

* **`isSome_along?_updateAlong`**: the addresses that exist afterwards are the old ones and those
  that the way passes (`Passes`): all steps but the last agree, and the last has the name and at
  least the number.
* **`bind_along?_updateAlong`**: what can be read off an element without its children changes at the
  end of the way and nowhere else. Elements created on the way are bare, so they show nothing.
* **`everywhere_updateAlong`**: what holds of all elements and of bare ones with names on the way,
  whatever their children, and is kept by the change, holds of all elements afterwards.

All go by induction on the way. One step of it is `getElem?_named_updateMember`: the members of the
family are the old ones, bare ones up to the number, and the changed one.
-/

namespace InvoiceXml.Element

/-- The element at the end of a way of names and numbers. -/
def along? : List (String × Nat) → Element → Option Element
  | [], element => some element
  | (name, number) :: rest, element => (element.named name)[number]?.bind (along? rest)

/-- The way goes through the address, or through a later member of the same family. -/
def Passes (way address : List (String × Nat)) : Prop :=
  ∃ outer name number further, address = outer ++ [(name, number)] ∧ number ≤ further ∧
    outer ++ [(name, further)] <+: way

/-- A change that leaves name and children as they are. -/
structure KeepsShape (change : Element → Element) : Prop where
  name : ∀ element, (change element).name = element.name
  children : ∀ element, (change element).children = element.children

/-! ### One family under a change of one member -/

theorem filter_insertAfterFamily (name : String) (new children : List Element)
    (hnew : ∀ element ∈ new, element.isNamed name = true) :
    (insertAfterFamily name new children).filter (isNamed name) = children.filter (isNamed name) ++ new := by
  have hfilter : new.filter (isNamed name) = new := List.filter_eq_self.mpr hnew
  induction children with
  | nil => simpa [insertAfterFamily] using hfilter
  | cons child rest ih =>
    rw [insertAfterFamily]
    split
    · rename_i hlast
      -- the last member of the family: none is left behind it
      have hrest : rest.filter (isNamed name) = [] := by
        rw [List.filter_eq_nil_iff]
        have hnone := hlast.2
        simpa using hnone
      simp [hlast.1, hrest, hfilter]
    · by_cases hchild : child.isNamed name = true
      · simp [hchild, ih]
      · simp [hchild, ih]

theorem filter_insertAfterFamily_of_ne {name other : String} (h : other ≠ name) (new children : List Element)
    (hnew : ∀ element ∈ new, element.isNamed name = true) :
    (insertAfterFamily name new children).filter (isNamed other) = children.filter (isNamed other) := by
  have hfilter : new.filter (isNamed other) = [] := by
    rw [List.filter_eq_nil_iff]
    intro element hmem hother
    have hname : element.name = name := by simpa [isNamed] using hnew element hmem
    have hother : element.name = other := by simpa [isNamed] using hother
    exact h (hother.symm.trans hname)
  induction children with
  | nil => simpa [insertAfterFamily] using hfilter
  | cons child rest ih =>
    rw [insertAfterFamily]
    split
    · by_cases hchild : child.isNamed other = true <;> simp [hchild, hfilter]
    · by_cases hchild : child.isNamed other = true <;> simp [hchild, ih]

/-- Extending a family adds bare members behind it. -/
theorem filter_extendFamily (name : String) (size : Nat) (children : List Element) :
    (extendFamily name size children).filter (isNamed name) =
      children.filter (isNamed name) ++
        List.replicate (size - (children.filter (isNamed name)).length) ({ name } : Element) := by
  rw [extendFamily, List.countP_eq_length_filter]
  split
  · rename_i hmissing
    simp [hmissing]
  · rw [filter_insertAfterFamily]
    intro element hmem
    rw [List.eq_of_mem_replicate hmem]
    simp [isNamed]

theorem filter_extendFamily_of_ne {name other : String} (h : other ≠ name) (size : Nat)
    (children : List Element) :
    (extendFamily name size children).filter (isNamed other) = children.filter (isNamed other) := by
  rw [extendFamily]
  split
  · rfl
  · rw [filter_insertAfterFamily_of_ne h]
    intro element hmem
    rw [List.eq_of_mem_replicate hmem]
    simp [isNamed]

theorem filter_modifyMember {change : Element → Element}
    (hchange : ∀ element, (change element).name = element.name) (name : String) (number : Nat)
    (children : List Element) :
    (modifyMember name change number children).filter (isNamed name) =
      (children.filter (isNamed name)).modify number change := by
  have hnamed : ∀ element, (change element).isNamed name = element.isNamed name := by
    intro element
    simp [isNamed, hchange]
  induction children generalizing number with
  | nil => simp [modifyMember]
  | cons child rest ih =>
    by_cases hchild : child.isNamed name = true
    · cases number with
      | zero => simp [modifyMember, hchild, hnamed]
      | succ number => simp [modifyMember, hchild, ih]
    · simp [modifyMember, hchild, ih]

theorem filter_modifyMember_of_ne {change : Element → Element}
    (hchange : ∀ element, (change element).name = element.name) {name other : String} (h : other ≠ name)
    (number : Nat) (children : List Element) :
    (modifyMember name change number children).filter (isNamed other) = children.filter (isNamed other) := by
  induction children generalizing number with
  | nil => simp [modifyMember]
  | cons child rest ih =>
    by_cases hchild : child.isNamed name = true
    · have hname : child.name = name := by simpa [isNamed] using hchild
      have hother : child.isNamed other = false := by simpa [isNamed, hname] using Ne.symm h
      cases number with
      | zero =>
        have hchanged : (change child).isNamed other = false := by
          simpa [isNamed, hchange, hname] using Ne.symm h
        simp [modifyMember, hchild, hother, hchanged]
      | succ number => simp [modifyMember, hchild, hother, ih]
    · by_cases hother : child.isNamed other = true <;> simp [modifyMember, hchild, hother, ih]

/-- The members of a family after one of them was created and changed. -/
theorem getElem?_named_updateMember {change : Element → Element}
    (hchange : ∀ element, (change element).name = element.name) (name : String) (number i : Nat)
    (element : Element) :
    ((updateMember name number change element).named name)[i]? =
      if i = number then some (change (((element.named name)[number]?).getD { name }))
      else if i < number then some (((element.named name)[i]?).getD { name })
      else (element.named name)[i]? := by
  have hfamily : (updateMember name number change element).named name =
      (element.named name ++ List.replicate (number + 1 - (element.named name).length)
        ({ name } : Element)).modify number change := by
    rw [named, updateMember, filter_modifyMember hchange, filter_extendFamily]
    rfl
  rw [hfamily, List.getElem?_modify, List.getElem?_append, List.getElem?_replicate]
  by_cases hlt : i < (element.named name).length
  · by_cases heq : number = i
    · subst heq
      simp [hlt]
    · by_cases hi : i < number <;> simp [hlt, heq, hi, Ne.symm heq]
  · have hnone : (element.named name)[i]? = none := List.getElem?_eq_none (by omega)
    by_cases heq : number = i
    · subst heq
      have hroom : number - (element.named name).length < number + 1 - (element.named name).length := by omega
      simp [hlt, hroom]
    · by_cases hi : i < number
      · have hroom : i - (element.named name).length < number + 1 - (element.named name).length := by omega
        simp [hlt, heq, Ne.symm heq, hi, hroom]
      · have hroom : ¬ i - (element.named name).length < number + 1 - (element.named name).length := by omega
        simp [hlt, heq, Ne.symm heq, hi, hroom]

theorem named_updateMember_of_ne {change : Element → Element}
    (hchange : ∀ element, (change element).name = element.name) {name other : String} (h : other ≠ name)
    (number : Nat) (element : Element) :
    (updateMember name number change element).named other = element.named other := by
  rw [named, updateMember, filter_modifyMember_of_ne hchange h, filter_extendFamily_of_ne h]
  rfl

/-! ### Addresses that a way passes -/

theorem not_passes_nil (way : List (String × Nat)) : ¬ Passes way [] := by
  intro h
  obtain ⟨outer, name, number, further, haddress, -, -⟩ := h
  simp at haddress

theorem not_nil_passes (address : List (String × Nat)) : ¬ Passes [] address := by
  intro h
  obtain ⟨outer, name, number, further, -, -, hunder⟩ := h
  simp at hunder

/-- A way passes an address at its first step, where the address may end before the number is reached, or
agrees with it there and passes the rest. -/
theorem passes_cons_cons (step first : String × Nat) (way rest : List (String × Nat)) :
    Passes (step :: way) (first :: rest) ↔
      (rest = [] ∧ first.1 = step.1 ∧ first.2 ≤ step.2) ∨ (first = step ∧ Passes way rest) := by
  constructor
  · intro h
    obtain ⟨outer, name, number, further, haddress, hle, hunder⟩ := h
    cases outer with
    | nil =>
      obtain ⟨rfl, rfl⟩ : first = (name, number) ∧ rest = [] := by simpa using haddress
      obtain rfl : (name, further) = step := by simpa using hunder
      exact .inl ⟨rfl, rfl, hle⟩
    | cons head outer =>
      obtain ⟨rfl, rfl⟩ : first = head ∧ rest = outer ++ [(name, number)] := by simpa using haddress
      obtain ⟨hhead, hunder⟩ := List.cons_prefix_cons.mp hunder
      exact .inr ⟨hhead, outer, name, number, further, rfl, hle, hunder⟩
  · intro h
    rcases h with ⟨rfl, hname, hle⟩ | ⟨rfl, outer, name, number, further, rfl, hle, hunder⟩
    · refine ⟨[], first.1, first.2, step.2, by simp, hle, ?_⟩
      rw [hname]
      exact List.cons_prefix_cons.mpr ⟨rfl, List.nil_prefix⟩
    · exact ⟨first :: outer, name, number, further, rfl, hle, List.cons_prefix_cons.mpr ⟨rfl, hunder⟩⟩

/-! ### What exists, and what is seen -/

theorem name_updateAlong {change : Element → Element} (hchange : KeepsShape change)
    (way : List (String × Nat)) (element : Element) :
    (updateAlong change way element).name = element.name := by
  cases way with
  | nil => exact hchange.name element
  | cons step way => rfl

theorem along?_cons (step : String × Nat) (rest : List (String × Nat)) (element : Element) :
    along? (step :: rest) element = ((element.named step.1)[step.2]?).bind (along? rest) := rfl

theorem along?_append (outer rest : List (String × Nat)) (element : Element) :
    along? (outer ++ rest) element = (along? outer element).bind (along? rest) := by
  induction outer generalizing element with
  | nil => rfl
  | cons step outer ih =>
    rw [List.cons_append, along?_cons, along?_cons, Option.bind_assoc]
    exact congrArg _ (funext ih)

/-- Under a bare element there is nothing but itself. -/
theorem isSome_along?_bare (name : String) (address : List (String × Nat)) :
    (along? address { name }).isSome = true ↔ address = [] := by
  cases address <;> simp [along?, named]

/-- A step of the way keeps all families but its own, and in its own the members beyond its number. -/
theorem along?_updateMember {change : Element → Element}
    (hchange : ∀ element, (change element).name = element.name) (step first : String × Nat)
    (rest : List (String × Nat)) (element : Element) :
    along? (first :: rest) (updateMember step.1 step.2 change element) =
      if first = step then along? rest (change (((element.named step.1)[step.2]?).getD { name := step.1 }))
      else if first.1 = step.1 ∧ first.2 < step.2 then
        along? rest (((element.named first.1)[first.2]?).getD { name := first.1 })
      else along? (first :: rest) element := by
  obtain ⟨name, number⟩ := step
  obtain ⟨other, i⟩ := first
  rw [along?_cons, along?_cons]
  by_cases hname : other = name
  · subst hname
    rw [getElem?_named_updateMember hchange]
    by_cases heq : i = number
    · simp [heq]
    · by_cases hlt : i < number <;> simp [heq, hlt]
  · rw [named_updateMember_of_ne hchange hname]
    simp [hname]

/-- A member, old or created, is there itself, and below it is what was there before. -/
theorem isSome_along?_member (step : String × Nat) (rest : List (String × Nat)) (element : Element) :
    (along? rest (((element.named step.1)[step.2]?).getD { name := step.1 })).isSome = true ↔
      (along? (step :: rest) element).isSome = true ∨ rest = [] := by
  rw [along?_cons]
  cases hmember : (element.named step.1)[step.2]? with
  | none =>
    rw [Option.getD_none, isSome_along?_bare]
    simp
  | some child =>
    rw [Option.getD_some, Option.bind_some]
    constructor
    · exact .inl
    · intro h
      rcases h with h | rfl
      · exact h
      · rfl

/-- **What exists after an update.** The old addresses do, and those that the way passes. -/
theorem isSome_along?_updateAlong {change : Element → Element} (hchange : KeepsShape change)
    (way address : List (String × Nat)) (element : Element) :
    (along? address (updateAlong change way element)).isSome = true ↔
      (along? address element).isSome = true ∨ Passes way address := by
  induction way generalizing address element with
  | nil =>
    have hsame : ∀ rest first, along? (first :: rest) (change element) = along? (first :: rest) element := by
      intro rest first
      simp only [along?_cons, named, hchange.children]
    cases address with
    | nil => simp [along?]
    | cons first rest => simp [updateAlong, hsame, not_nil_passes]
  | cons step way ih =>
    cases address with
    | nil => simp [along?]
    | cons first rest =>
      have hname := name_updateAlong hchange way
      show (along? (first :: rest)
        (updateMember step.1 step.2 (updateAlong change way) element)).isSome = true ↔ _
      rw [along?_updateMember hname, passes_cons_cons]
      by_cases heq : first = step
      · -- the member on the way: what the rest of the way passes comes to it
        subst heq
        rw [if_pos rfl, ih, isSome_along?_member]
        simp [or_assoc]
      · rw [if_neg heq]
        by_cases hlt : first.1 = step.1 ∧ first.2 < step.2
        · -- a member before it
          rw [if_pos hlt, isSome_along?_member]
          simp [heq, hlt.1, Nat.le_of_lt hlt.2]
        · -- everything else stays
          have hbeyond : ¬(first.1 = step.1 ∧ first.2 ≤ step.2) := by
            intro h
            have hne : first.2 ≠ step.2 := fun h' => heq (Prod.ext h.1 h')
            exact hlt ⟨h.1, by omega⟩
          rw [if_neg hlt]
          simp [heq, hbeyond]

/-- **What is seen after an update.** The reading `see` looks at an element without its children and sees
nothing on a bare one; the change puts `value` in its place, if there is one. Then the reading changes at the
end of the way only. -/
theorem bind_along?_updateAlong {change : Element → Element} (hchange : KeepsShape change)
    {see : Element → Option String} {value : Option String}
    (hbare : ∀ name, see { name } = none)
    (hchildren : ∀ element children, see { element with children } = see element)
    (hvalue : ∀ element, see (change element) = value.or (see element))
    (way address : List (String × Nat)) (element : Element) :
    (along? address (updateAlong change way element)).bind see =
      if address = way then value.or ((along? address element).bind see)
      else (along? address element).bind see := by
  induction way generalizing address element with
  | nil =>
    cases address with
    | nil => simp [along?, updateAlong, hvalue]
    | cons first rest => simp [updateAlong, along?_cons, named, hchange.children]
  | cons step way ih =>
    cases address with
    | nil =>
      have hmember : see (updateMember step.1 step.2 (updateAlong change way) element) = see element :=
        hchildren element _
      simpa [along?, updateAlong] using hmember
    | cons first rest =>
      have hname := name_updateAlong hchange way
      have hnothing : ∀ name, (along? rest ({ name } : Element)).bind see = none := by
        intro name
        cases rest <;> simp [along?, named, hbare]
      show (along? (first :: rest) (updateMember step.1 step.2 (updateAlong change way) element)).bind see = _
      rw [along?_updateMember hname]
      by_cases heq : first = step
      · subst heq
        rw [if_pos rfl, ih, along?_cons]
        cases hmember : (element.named first.1)[first.2]? with
        | none => simp [hnothing]
        | some child => simp
      · have hne : first :: rest ≠ step :: way := fun h => heq (List.cons.inj h).1
        rw [if_neg heq, if_neg hne]
        by_cases hlt : first.1 = step.1 ∧ first.2 < step.2
        · rw [if_pos hlt, along?_cons]
          cases hmember : (element.named first.1)[first.2]? with
          | none => simp [hnothing]
          | some child => simp
        · rw [if_neg hlt]

/-! ### Everywhere in a tree -/

/-- Whether something holds of an element and of all below it. -/
def Everywhere (holds : Element → Prop) (element : Element) : Prop :=
  ∀ address found, element.along? address = some found → holds found

/-- What can be shown of an element from its children holds of all elements. -/
@[elab_as_elim]
theorem induction_on_children {motive : Element → Prop}
    (step : ∀ element : Element, (∀ child ∈ element.children, motive child) → motive element) :
    ∀ element, motive element
  | { name, attrs, text, children } => step _ fun child hchild =>
    have : sizeOf child < sizeOf children := List.sizeOf_lt_of_mem hchild
    induction_on_children step child
termination_by element => sizeOf element
decreasing_by
  simp only [mk.sizeOf_spec]
  omega

/-- A child is a member of the family of its name. -/
theorem exists_named_of_mem_children {element child : Element} (h : child ∈ element.children) :
    ∃ number : Nat, (element.named child.name)[number]? = some child := by
  have hmem : child ∈ element.named child.name := List.mem_filter.mpr ⟨h, by simp [isNamed]⟩
  exact List.mem_iff_getElem?.mp hmem

section Everywhere

variable {holds : Element → Prop} {element : Element}

theorem Everywhere.self (h : element.Everywhere holds) : holds element := h [] element rfl

theorem Everywhere.of_named {child : Element} (h : element.Everywhere holds) {name : String} {number : Nat}
    (hchild : (element.named name)[number]? = some child) : child.Everywhere holds := by
  intro address found hfound
  refine h ((name, number) :: address) found ?_
  rw [along?_cons, hchild]
  exact hfound

theorem Everywhere.of_mem_children {child : Element} (h : element.Everywhere holds)
    (hchild : child ∈ element.children) : child.Everywhere holds := by
  obtain ⟨number, hnumber⟩ := exists_named_of_mem_children hchild
  exact h.of_named hnumber

/-- Something holds everywhere in an element iff it holds of the element and everywhere in its children. -/
theorem everywhere_iff :
    element.Everywhere holds ↔ holds element ∧ ∀ child ∈ element.children, child.Everywhere holds := by
  refine ⟨fun h => ⟨h.self, fun child hchild => h.of_mem_children hchild⟩, ?_⟩
  rintro ⟨hself, hchildren⟩ address found hfound
  cases address with
  | nil =>
    obtain rfl : element = found := Option.some.inj hfound
    exact hself
  | cons step rest =>
    rw [along?_cons, Option.bind_eq_some_iff] at hfound
    obtain ⟨child, hchild, hfound⟩ := hfound
    exact hchildren child (List.mem_filter.mp (List.mem_of_getElem? hchild)).1 rest found hfound

/-- What holds of a bare element holds everywhere in it. -/
theorem everywhere_bare {name : String} (h : holds { name }) : ({ name } : Element).Everywhere holds := by
  intro address found hfound
  obtain rfl := (isSome_along?_bare name address).mp (Option.isSome_of_mem hfound)
  obtain rfl : ({ name } : Element) = found := Option.some.inj hfound
  exact h

/-- What holds everywhere holds in a member of a family, old or created. -/
theorem Everywhere.member (h : element.Everywhere holds) {name : String} (hbare : holds { name })
    (number : Nat) :
    ((element.named name)[number]?.getD { name }).Everywhere holds := by
  cases hold : (element.named name)[number]? with
  | none => exact everywhere_bare hbare
  | some child => exact h.of_named hold

end Everywhere

mutual

instance decidableEverywhere (holds : Element → Prop) [DecidablePred holds] :
    (element : Element) → Decidable (element.Everywhere holds)
  | { name, attrs, text, children } =>
    have := decidableAllEverywhere holds children
    decidable_of_iff (holds { name, attrs, text, children } ∧ ∀ child ∈ children, child.Everywhere holds)
      everywhere_iff.symm

instance decidableAllEverywhere (holds : Element → Prop) [DecidablePred holds] :
    (children : List Element) → Decidable (∀ child ∈ children, child.Everywhere holds)
  | [] => isTrue (List.forall_mem_nil _)
  | child :: rest =>
    have := decidableEverywhere holds child
    have := decidableAllEverywhere holds rest
    decidable_of_iff (child.Everywhere holds ∧ ∀ other ∈ rest, other.Everywhere holds)
      List.forall_mem_cons.symm

end

/-- What holds of all elements and of bare ones with names on the way, whatever their children, and
is kept by the change, holds of all elements afterwards. -/
theorem everywhere_updateAlong {change : Element → Element} (hchange : KeepsShape change)
    {holds : Element → Prop} (hchildren : ∀ element children, holds element → holds { element with children })
    (hkeeps : ∀ element, holds element → holds (change element)) {way : List (String × Nat)}
    (hbare : ∀ step ∈ way, holds { name := step.1 }) {element : Element} (hall : element.Everywhere holds) :
    (updateAlong change way element).Everywhere holds := by
  induction way generalizing element with
  | nil =>
    intro address found hfound
    cases address with
    | nil =>
      obtain rfl : change element = found := Option.some.inj hfound
      exact hkeeps element (hall [] element rfl)
    | cons first rest =>
      have hsame : along? (first :: rest) (change element) = along? (first :: rest) element := by
        simp only [along?_cons, named, hchange.children]
      exact hall (first :: rest) found (hsame.symm.trans hfound)
  | cons step way ih =>
    obtain ⟨hstep, hway⟩ := List.forall_mem_cons.mp hbare
    intro address found hfound
    cases address with
    | nil =>
      obtain rfl : updateMember step.1 step.2 (updateAlong change way) element = found :=
        Option.some.inj hfound
      exact hchildren element _ (hall [] element rfl)
    | cons first rest =>
      change along? (first :: rest) (updateMember step.1 step.2 (updateAlong change way) element) =
        some found at hfound
      rw [along?_updateMember (name_updateAlong hchange way)] at hfound
      split at hfound
      · exact ih hway (hall.member hstep step.2) rest found hfound
      · split at hfound
        · rename_i hbefore
          rw [hbefore.1] at hfound
          exact hall.member hstep first.2 rest found hfound
        · exact hall (first :: rest) found hfound

end InvoiceXml.Element
