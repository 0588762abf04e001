import InvoiceXml.Proofs.Element.Address
import Mathlib.Data.List.Basic

/-!
# The order of families

Families of children stand one after the other. `Precedes` says of two names that no child with the
second stands before one with the first, and this file says how that survives a change below the
element.

* `exists_of_along?_updateAlong`: an update changes the children of the elements on its way and of
  no others;
* **`precedes_updateMember`**: a step of the way keeps the order of two families, if the first is
  there wherever the second is. A family that is there grows in place, so only a new one could come
  too late.
-/

namespace InvoiceXml

/-- A way goes on in one direction. -/
theorem eq_of_prefix_append_singleton {α : Type} {outer way : List α} {next other : α}
    (h : outer ++ [next] <+: way) (hother : outer ++ [other] <+: way) : next = other := by
  have hsame := (List.prefix_of_prefix_length_le h hother (by simp)).eq_of_length (by simp)
  exact List.singleton_inj.mp (List.append_cancel_left hsame)

namespace Element

/-- No child with the second name stands before one with the first. -/
def Precedes (first second : String) (element : Element) : Prop :=
  (element.children.map name).Pairwise fun name later => ¬(name = second ∧ later = first)

instance (first second : String) (element : Element) : Decidable (element.Precedes first second) :=
  inferInstanceAs (Decidable (List.Pairwise _ _))

/-- Whether there is a child with the name. -/
def Has (name : String) (element : Element) : Prop := ∃ child ∈ element.children, child.name = name

/-- The way goes through a child with the name of the element at the address. -/
def Enters (name : String) (outer way : List (String × Nat)) : Prop :=
  ∃ number, outer ++ [(name, number)] <+: way

/-- A way enters one family of an element. -/
theorem Enters.unique {name other : String} {outer way : List (String × Nat)} (h : Enters name outer way)
    (hother : Enters other outer way) : name = other := by
  obtain ⟨number, hunder⟩ := h
  obtain ⟨further, hfurther⟩ := hother
  exact congrArg Prod.fst (eq_of_prefix_append_singleton hunder hfurther)

/-- The names on the way go through the name of the family. -/
theorem Enters.map_fst {name : String} {outer way : List (String × Nat)} (h : Enters name outer way) :
    outer.map Prod.fst ++ [name] <+: way.map Prod.fst := by
  obtain ⟨number, hunder⟩ := h
  have hnames := hunder.map Prod.fst
  rwa [List.map_append] at hnames

/-! ### What is there -/

theorem has_iff_named {name : String} {element : Element} :
    element.Has name ↔ ((element.named name)[0]?).isSome = true := by
  rw [isSome_getElem?, named, List.length_pos_iff_exists_mem]
  constructor
  · intro h
    obtain ⟨child, hchild, hname⟩ := h
    exact ⟨child, List.mem_filter.mpr ⟨hchild, by simp [isNamed, hname]⟩⟩
  · intro h
    obtain ⟨child, hchild⟩ := h
    obtain ⟨hmem, hname⟩ := List.mem_filter.mp hchild
    exact ⟨child, hmem, by simpa [isNamed] using hname⟩

/-- There is a child with the name iff its address exists. -/
theorem has_iff_along? {name : String} {outer : List (String × Nat)} {root element : Element}
    (h : root.along? outer = some element) :
    element.Has name ↔ (root.along? (outer ++ [(name, 0)])).isSome = true := by
  rw [has_iff_named, along?_append, h, Option.bind_some, along?_cons]
  cases (element.named name)[0]? <;> simp [along?]

/-- A way enters a family iff it passes the first member. -/
theorem enters_iff_passes {name : String} {outer way : List (String × Nat)} :
    Enters name outer way ↔ Passes way (outer ++ [(name, 0)]) := by
  constructor
  · intro h
    obtain ⟨number, hunder⟩ := h
    exact ⟨outer, name, 0, number, rfl, Nat.zero_le number, hunder⟩
  · intro h
    obtain ⟨other, name', number, further, heq, -, hunder⟩ := h
    obtain ⟨rfl, hlast⟩ := List.append_inj' heq rfl
    obtain ⟨rfl, -⟩ := Prod.mk.inj (List.singleton_inj.mp hlast)
    exact ⟨further, hunder⟩

/-! ### One element -/

/-- A change of one member does not change the names. -/
theorem map_name_modifyMember {change : Element → Element}
    (hchange : ∀ element, (change element).name = element.name) (name : String) (number : Nat)
    (children : List Element) :
    (modifyMember name change number children).map Element.name = children.map Element.name := by
  induction children generalizing number with
  | nil => rfl
  | cons child rest ih =>
    by_cases hchild : child.isNamed name = true
    · cases number with
      | zero => simp [modifyMember, hchild, hchange]
      | succ number => simp [modifyMember, hchild, ih]
    · simp [modifyMember, hchild, ih]

theorem mem_insertAfterFamily {name : String} {new children : List Element} {element : Element} :
    element ∈ insertAfterFamily name new children ↔ element ∈ new ∨ element ∈ children := by
  induction children with
  | nil => simp [insertAfterFamily]
  | cons child rest ih =>
    rw [insertAfterFamily]
    split
    · simp only [List.mem_cons, List.mem_append]
      exact or_left_comm
    · simp only [List.mem_cons, ih]
      exact or_left_comm

section Families

variable {first second : String} (hne : first ≠ second)

include hne

/-- New members of a family keep the order, if the first family is there wherever the second is. -/
theorem pairwise_insertAfterFamily {name : String} {new children : List Element}
    (hnew : ∀ element ∈ new, element.name = name)
    (horder : (children.map Element.name).Pairwise fun name later => ¬(name = second ∧ later = first))
    (hopen : name = first → (∃ child ∈ children, child.name = second) →
      ∃ child ∈ children, child.name = first) :
    ((insertAfterFamily name new children).map Element.name).Pairwise
      fun name later => ¬(name = second ∧ later = first) := by
  have hsame : ∀ element ∈ new, ∀ other ∈ new, ¬(element.name = second ∧ other.name = first) := by
    intro element helement other hother h
    exact hne (h.2.symm.trans (((hnew other hother).trans (hnew element helement).symm).trans h.1))
  simp only [List.pairwise_map] at horder ⊢
  induction children with
  | nil => exact List.pairwise_of_forall_mem_list hsame
  | cons child rest ih =>
    obtain ⟨hchild, hrest⟩ := List.pairwise_cons.mp horder
    rw [insertAfterFamily]
    split
    · -- behind the last member, where the new ones stand to what follows as it does
      rename_i hlast
      have hname : child.name = name := by simpa [isNamed] using hlast.1
      rw [List.pairwise_cons, List.pairwise_append]
      refine ⟨?_, List.pairwise_of_forall_mem_list hsame, hrest, ?_⟩
      · intro other hother h
        rcases List.mem_append.mp hother with hother | hother
        · exact hne (h.2.symm.trans ((hnew other hother).trans (hname.symm.trans h.1)))
        · exact hchild other hother h
      · intro element helement other hother h
        exact hchild other hother ⟨hname.trans ((hnew element helement).symm.trans h.1), h.2⟩
    · rename_i hmore
      have hmore : child.name = name → ∃ other ∈ rest, other.name = name := by
        intro hname
        by_contra hnone
        push Not at hnone
        exact hmore ⟨by simp [isNamed, hname], by simpa [isNamed] using hnone⟩
      refine List.pairwise_cons.mpr ⟨?_, ih (fun hfirst hsecond => ?_) hrest⟩
      · intro other hother h
        rcases mem_insertAfterFamily.mp hother with hother | hother
        · -- the first family is there, and not before this child
          obtain ⟨opened, hopened, hname⟩ := hopen ((hnew other hother).symm.trans h.2) ⟨child, by simp, h.1⟩
          rcases List.mem_cons.mp hopened with rfl | hopened
          · exact hne (hname.symm.trans h.1)
          · exact hchild opened hopened ⟨h.1, hname⟩
        · exact hchild other hother h
      · obtain ⟨found, hfound, hname⟩ := hsecond
        obtain ⟨opened, hopened, hopenedName⟩ := hopen hfirst ⟨found, List.mem_cons_of_mem _ hfound, hname⟩
        rcases List.mem_cons.mp hopened with rfl | hopened
        · rw [← hfirst] at hopenedName ⊢
          exact hmore hopenedName
        · exact ⟨opened, hopened, hopenedName⟩

/-- **A step of a way keeps the order of two families**, if the first is there wherever the second is. -/
theorem precedes_updateMember {change : Element → Element}
    (hchange : ∀ element, (change element).name = element.name) {name : String} {number : Nat}
    {element : Element} (horder : element.Precedes first second)
    (hopen : name = first → element.Has second → element.Has first) :
    (updateMember name number change element).Precedes first second := by
  show ((modifyMember name change number (extendFamily name (number + 1) element.children)).map
    Element.name).Pairwise _
  rw [map_name_modifyMember hchange, extendFamily]
  split
  · exact horder
  · refine pairwise_insertAfterFamily hne ?_ horder hopen
    intro new hnew
    rw [List.eq_of_mem_replicate hnew]

end Families

/-! ### All elements -/

/-- **Where an update changes children.** The children of an element afterwards are those that it
had before, if any, or it is on the way, and then they are those after a step of it. -/
theorem exists_of_along?_updateAlong {change : Element → Element} (hchange : KeepsShape change)
    {way outer : List (String × Nat)} {element found : Element}
    (h : along? outer (updateAlong change way element) = some found) :
    ∃ old, (along? outer element = some old ∨ old.children = []) ∧
      (found.children = old.children ∨ ∃ step rest, way = outer ++ step :: rest ∧
        found.children = (updateMember step.1 step.2 (updateAlong change rest) old).children) := by
  induction way generalizing outer element with
  | nil =>
    cases outer with
    | nil =>
      obtain rfl : change element = found := Option.some.inj h
      exact ⟨element, .inl rfl, .inl (hchange.children element)⟩
    | cons first rest =>
      have hsame : along? (first :: rest) (change element) = along? (first :: rest) element := by
        simp only [along?_cons, named, hchange.children]
      exact ⟨found, .inl (hsame.symm.trans h), .inl rfl⟩
  | cons step way ih =>
    cases outer with
    | nil =>
      obtain rfl : updateMember step.1 step.2 (updateAlong change way) element = found := Option.some.inj h
      exact ⟨element, .inl rfl, .inr ⟨step, way, rfl, rfl⟩⟩
    | cons first rest =>
      -- what is found in a member, old or created, is found in the element, or has no children
      have hmember : ∀ (step : String × Nat) (old : Element),
          along? rest (((element.named step.1)[step.2]?).getD { name := step.1 }) = some old →
            along? (step :: rest) element = some old ∨ old.children = [] := by
        intro step old hold
        cases hmember : (element.named step.1)[step.2]? with
        | some child =>
          rw [hmember, Option.getD_some] at hold
          exact .inl (by rw [along?_cons, hmember, Option.bind_some, hold])
        | none =>
          rw [hmember, Option.getD_none] at hold
          have hempty := (isSome_along?_bare step.1 rest).mp (by rw [hold]; rfl)
          subst hempty
          obtain rfl : ({ name := step.1 } : Element) = old := Option.some.inj hold
          exact .inr rfl
      change along? (first :: rest) (updateMember step.1 step.2 (updateAlong change way) element) =
        some found at h
      rw [along?_updateMember (name_updateAlong hchange way)] at h
      split at h
      · rename_i heq
        subst heq
        obtain ⟨old, hold, hchildren⟩ := ih h
        refine ⟨old, hold.elim (hmember first old) .inr, hchildren.imp_right ?_⟩
        intro hstep
        obtain ⟨next, further, rfl, hnext⟩ := hstep
        exact ⟨next, further, rfl, hnext⟩
      · split at h
        · exact ⟨found, hmember first found h, .inl rfl⟩
        · exact ⟨found, .inl h, .inl rfl⟩

end Element

end InvoiceXml
