import InvoiceXml.Proofs.Element.Cursor

/-!
# Creating members

The children of an element, in whatever order, split where a family ends (`IsFamilyEnd`): behind its
last member, or at the end of all children where it has none. `makeMember` looks the positions of a
family up once and only notes those of the members that it adds. This is enough, as each is added at
the end of the family, which moves on behind it.

* `IsFamilyEnd.growFamily_eq`: while members are added, the positions noted stay those of the
  family, and what is added is one block at its end;
* `modifyMember_eq_modify`: changing a member is changing the child at its position;
* **`makeMember_creates`**: so `makeMember` creates exactly the missing members, in one block, and
  finds the one that a cursor finds.
-/

namespace InvoiceXml.Element

variable {name : String} {number : Nat} {children before after : List Element}

/-! ### Where a family ends -/

/-- Whether a family ends between two parts of the children. -/
inductive IsFamilyEnd (name : String) : List Element → List Element → Prop
  | behind (front : List Element) {last : Element} {after : List Element} (hlast : last.name = name)
      (hafter : ∀ child ∈ after, child.name ≠ name) : IsFamilyEnd name (front ++ [last]) after
  | absent {children : List Element} (hnone : ∀ child ∈ children, child.name ≠ name) :
      IsFamilyEnd name children []

theorem isNamed_eq_false_of_ne {element : Element} (h : element.name ≠ name) : element.isNamed name = false :=
  beq_eq_false_iff_ne.mpr h

theorem isNamed_of_eq {element : Element} (h : element.name = name) : element.isNamed name = true :=
  beq_iff_eq.mpr h

/-- Every family ends somewhere. -/
theorem exists_isFamilyEnd (name : String) (children : List Element) :
    ∃ before after, children = before ++ after ∧ IsFamilyEnd name before after := by
  induction children with
  | nil => exact ⟨[], [], rfl, .absent (by simp)⟩
  | cons child rest ih =>
    obtain ⟨before, after, rfl, hend⟩ := ih
    cases hend with
    | @behind front last _ hlast hafter =>
      exact ⟨child :: (front ++ [last]), after, rfl, .behind (child :: front) hlast hafter⟩
    | absent hnone =>
      by_cases hchild : child.name = name
      · exact ⟨[child], before, by simp, .behind [] hchild hnone⟩
      · exact ⟨child :: before, [], rfl, .absent (List.forall_mem_cons.mpr ⟨hchild, hnone⟩)⟩

theorem IsFamilyEnd.ne_of_mem_after (h : IsFamilyEnd name before after) :
    ∀ child ∈ after, child.name ≠ name := by
  cases h with
  | behind _ hlast hafter => exact hafter
  | absent hnone => simp

/-- The end of a family moves on behind a new member. -/
theorem IsFamilyEnd.concat (h : IsFamilyEnd name before after) {new : Element} (hnew : new.name = name) :
    IsFamilyEnd name (before ++ [new]) after :=
  .behind before hnew h.ne_of_mem_after

/-! ### Positions -/

theorem getElem?_positions (name : String) (number : Nat) (children : List Element) :
    (positions name children)[number]? = (member? name number children).map Prod.fst := by
  rw [positions, member?, List.getElem?_map, Option.map_map]
  rfl

theorem length_positions (name : String) (children : List Element) :
    (positions name children).length = children.countP (isNamed name) := by
  have hfilter : (fun entry : Element × Nat => entry.1.isNamed name) = isNamed name ∘ Prod.fst := rfl
  rw [positions, List.length_map, ← List.countP_eq_length_filter, hfilter, ← List.countP_map,
    List.zipIdx_map_fst]

theorem positions_append_of_ne (before : List Element) (h : ∀ child ∈ after, child.name ≠ name) :
    positions name (before ++ after) = positions name before := by
  have hnone : (after.zipIdx before.length).filter (fun entry => entry.1.isNamed name) = [] := by
    rw [List.filter_eq_nil_iff]
    intro entry hentry
    rw [isNamed_eq_false_of_ne (h entry.1 (List.fst_mem_of_mem_zipIdx hentry))]
    simp
  rw [positions, List.zipIdx_append, List.filter_append, Nat.zero_add, hnone, List.append_nil, positions]

theorem positions_concat (before : List Element) {child : Element} (h : child.name = name) :
    positions name (before ++ [child]) = positions name before ++ [before.length] := by
  simp [positions, List.zipIdx_append, isNamed_of_eq h]

theorem positions_eq_nil (h : ∀ child ∈ children, child.name ≠ name) : positions name children = [] :=
  positions_append_of_ne [] h

/-! ### Adding one member, and all -/

/-- The next member goes to the end of the family. -/
theorem IsFamilyEnd.nextPosition_eq (h : IsFamilyEnd name before after) :
    nextPosition (positions name (before ++ after)) (before ++ after) = before.length := by
  cases h with
  | behind _ hlast hafter =>
    rw [positions_append_of_ne _ hafter, positions_concat _ hlast, nextPosition, List.getLast?_concat]
    simp
  | absent hnone =>
    rw [List.append_nil, positions_eq_nil hnone]
    rfl

/-- **One member is added.** Its position, noted behind the others, makes them the positions of the
larger family. -/
theorem IsFamilyEnd.positions_concat (h : IsFamilyEnd name before after) {new : Element}
    (hnew : new.name = name) :
    positions name (before ++ [new] ++ after) = positions name (before ++ after) ++ [before.length] := by
  rw [positions_append_of_ne _ h.ne_of_mem_after, Element.positions_concat _ hnew,
    positions_append_of_ne _ h.ne_of_mem_after]

/-- **All members are added.** They are one block at the end of the family, and the positions noted
are those of the larger family. -/
theorem IsFamilyEnd.growFamily_eq (h : IsFamilyEnd name before after) :
    let new := List.replicate (number + 1 - (before ++ after).countP (isNamed name)) ({ name } : Element)
    let grown := before ++ new ++ after
    growFamily name number (before ++ after) (positions name (before ++ after)) =
        (grown, positions name grown) := by
  rw [← length_positions]
  -- on how many are missing; the positions are those of the family in each round
  induction hmissing : number + 1 - (positions name (before ++ after)).length generalizing before with
  | zero =>
    rw [growFamily, if_neg (by omega)]
    simp
  | succ missing ih =>
    have hnew : ({ name } : Element).name = name := rfl
    have hinsert : (before ++ after).insertIdx before.length { name } =
        before ++ [({ name } : Element)] ++ after :=
      (List.modifyTailIdx_add (List.cons _) 0 before after).trans (List.append_cons before _ after)
    have hpositions := h.positions_concat hnew
    have hless : number + 1 - (positions name (before ++ [({ name } : Element)] ++ after)).length =
        missing := by
      rw [hpositions, List.length_append, List.length_singleton]
      omega
    rw [growFamily, if_pos (by omega)]
    simp only [h.nextPosition_eq, hinsert, ← hpositions]
    rw [ih (h.concat hnew) hless, List.replicate_succ]
    simp only [List.append_assoc, List.singleton_append]

/-! ### Agreement with families and cursors -/

/-- Where a family ends, `insertAfterFamily` inserts. -/
theorem IsFamilyEnd.insertAfterFamily_eq (h : IsFamilyEnd name before after) (new : List Element) :
    insertAfterFamily name new (before ++ after) = before ++ new ++ after := by
  cases h with
  | @behind front last _ hlast hafter =>
    induction front with
    | nil =>
      have hany : after.any (isNamed name) = false :=
        List.any_eq_false.mpr fun child hchild => by simp [isNamed_eq_false_of_ne (hafter child hchild)]
      simp [insertAfterFamily, isNamed_of_eq hlast, hany]
    | cons child front ih =>
      have hany : (front ++ [last] ++ after).any (isNamed name) = true :=
        List.any_eq_true.mpr ⟨last, by simp, isNamed_of_eq hlast⟩
      rw [List.cons_append, List.cons_append, insertAfterFamily, if_neg (by rw [hany]; simp), ih]
      rfl
  | absent hnone =>
    induction before with
    | nil => simp [insertAfterFamily]
    | cons child rest ih =>
      obtain ⟨hchild, hrest⟩ := List.forall_mem_cons.mp hnone
      rw [List.cons_append, insertAfterFamily, if_neg (by simp [isNamed_eq_false_of_ne hchild]), ih hrest]
      rfl

theorem IsFamilyEnd.extendFamily_eq (h : IsFamilyEnd name before after) (size : Nat) :
    extendFamily name size (before ++ after) =
      before ++ List.replicate (size - (before ++ after).countP (isNamed name)) ({ name } :
        Element) ++ after := by
  rw [extendFamily]
  split
  · rename_i hmissing
    rw [hmissing, List.replicate_zero, List.append_nil]
  · exact h.insertAfterFamily_eq _

/-- Both ways to add members add the same ones. -/
theorem makeMember_eq (name : String) (number : Nat) (element : Element) :
    element.makeMember name number =
      ({ element with children := extendFamily name (number + 1) element.children },
        (member? name number (extendFamily name (number + 1) element.children)).map Prod.fst) := by
  obtain ⟨before, after, hsplit, hend⟩ := exists_isFamilyEnd name element.children
  simp only [makeMember, hsplit, hend.growFamily_eq, hend.extendFamily_eq, getElem?_positions]

/-- Changing a member is changing the child at its position. -/
theorem modifyMember_eq_modify {position : Nat} {child : Element} (change : Element → Element)
    (h : member? name number children = some (position, child)) :
    modifyMember name change number children = children.modify position change := by
  obtain ⟨hchild, hnamed, hnumber⟩ := member?_eq_some_iff.mp h
  clear h
  induction children generalizing number position with
  | nil => simp at hchild
  | cons first rest ih =>
    cases position with
    | zero =>
      obtain rfl : first = child := by simpa using hchild
      obtain rfl : 0 = number := hnumber
      simp [modifyMember, hnamed]
    | succ position =>
      have hrest : rest[position]? = some child := by simpa using hchild
      rw [List.take_succ_cons, List.countP_cons] at hnumber
      by_cases hfirst : first.isNamed name = true
      · rw [if_pos hfirst] at hnumber
        subst hnumber
        simp [modifyMember, hfirst, ih hrest rfl]
      · rw [if_neg hfirst, Nat.add_zero] at hnumber
        simp [modifyMember, hfirst, ih hrest hnumber]

/-- A member that is there is found, and nothing is created. -/
theorem makeMember_of_lt {element : Element} (h : number < element.count name) :
    element.makeMember name number = (element, (member? name number element.children).map Prod.fst) := by
  have hextend : extendFamily name (number + 1) element.children = element.children :=
    if_pos (Nat.sub_eq_zero_of_le h)
  rw [makeMember_eq, hextend]
  cases element
  rfl

theorem exists_member?_of_lt (h : number < children.countP (isNamed name)) :
    ∃ position child, member? name number children = some (position, child) := by
  have hlength : number < (positions name children).length := length_positions name children ▸ h
  have hsome := getElem?_positions name number children
  rw [List.getElem?_eq_getElem hlength] at hsome
  obtain ⟨⟨position, child⟩, hfound, -⟩ := Option.map_eq_some_iff.mp hsome.symm
  exact ⟨position, child, hfound⟩

/-- **Creating a member.** For any element, name and number: afterwards the family is as large as
before, or just large enough to have the member. The children are the old ones, and where the family
ended there is one block of the new ones, elements with the name and nothing else. The position is
that of the member with the number, where a cursor finds it, and to change a member of an element is
to change the child there. Asking again for this member, or for one before it, changes nothing. -/
theorem makeMember_creates (name : String) (number : Nat) (element : Element) :
    ∃ (made : Element) (position : Nat) (child : Element) (before after : List Element),
      element.makeMember name number = (made, some position) ∧
      made.count name = max (element.count name) (number + 1) ∧
      element.children = before ++ after ∧ IsFamilyEnd name before after ∧
      made = { element with
        children :=
          before ++ List.replicate (number + 1 - element.count name) ({ name } : Element) ++ after } ∧
      made.children[position]? = some child ∧ (made.named name)[number]? = some child ∧
      (∀ path address, Cursor.instance? name number ⟨made, path, address⟩ =
        .ok ⟨child, path ++ [Cursor.numbered name number], address ++ [position]⟩) ∧
      (∀ change, element.updateMember name number change = made.modifyAt change [position]) ∧
      ∀ other ≤ number, ∃ place, made.makeMember name other = (made, some place) := by
  obtain ⟨before, after, hsplit, hend⟩ := exists_isFamilyEnd name element.children
  have hmake := makeMember_eq name number element
  generalize hextend : extendFamily name (number + 1) element.children = children at hmake
  have hcount : children.countP (isNamed name) = max (element.count name) (number + 1) := by
    rw [← hextend, countP_extendFamily, Nat.max_comm]
    rfl
  have hfound : ∀ other ≤ number, ∃ place child, member? name other children = some (place, child) :=
    fun other hother => exists_member?_of_lt (by omega)
  obtain ⟨position, child, hmember⟩ := hfound number (Nat.le_refl number)
  refine ⟨{ element with children }, position, child, before, after, ?_, hcount, hsplit, hend, ?_,
    (member?_eq_some_iff.mp hmember).1, ?_, ?_, ?_, ?_⟩
  · rw [hmake, hmember]
    rfl
  · rw [← hextend, hsplit, hend.extendFamily_eq, ← hsplit]
    rfl
  · rw [named, ← map_snd_member?, hmember]
    rfl
  · exact fun path address => Cursor.instance?_eq_ok.mpr ⟨position, child, hmember, rfl⟩
  · intro change
    rw [updateMember, hextend, modifyMember_eq_modify change hmember]
    rfl
  · intro other hother
    obtain ⟨place, found, hplace⟩ := hfound other hother
    have hlt : other < Element.count name { element with children } := by
      show other < children.countP (isNamed name)
      omega
    refine ⟨place, ?_⟩
    rw [makeMember_of_lt hlt, hplace]
    rfl

/-- A family that is not contiguous gets two members more, behind the second of its old ones. -/
theorem makeMember_creates_scattered :
    let item := fun text => ({ name := "item", text := some text } : Element)
    let bare : Element := { name := "item" }
    let root : Element :=
      { name := "doc", children := [item "a", { name := "note" }, item "b", { name := "sum" }] }
    let made : Element :=
      { name := "doc", children := [item "a", { name := "note" }, item "b", bare, bare, { name := "sum" }] }
    root.makeMember "item" 3 = (made, some 4) ∧
      (Cursor.start made).instance? "item" 3 = .ok ⟨bare, ["doc", "item[3]"], [4]⟩ ∧
      ∃ place, made.makeMember "item" 1 = (made, some place) := by
  intro item bare root made
  have hmade : root.makeMember "item" 3 = (made, some 4) := (makeMember_eq "item" 3 root).trans rfl
  obtain ⟨found, position, child, -, -, hmake, -, -, -, -, hchild, -, hcursor, -, hagain⟩ :=
    makeMember_creates "item" 3 root
  obtain ⟨rfl, hposition⟩ := Prod.mk.inj (hmake.symm.trans hmade)
  obtain rfl := Option.some.inj hposition
  obtain rfl : bare = child := by simpa [made] using hchild
  have hpath : ["doc"] ++ [Cursor.numbered "item" 3] = ["doc", "item[3]"] := by decide
  exact ⟨hmade, (hcursor ["doc"] []).trans (by rw [hpath]; rfl), hagain 1 (by decide)⟩

end InvoiceXml.Element
