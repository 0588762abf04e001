import InvoiceXml.Element.Cursor
import InvoiceXml.Proofs.Element.Address
import InvoiceXml.Proofs.Path.Reader
import InvoiceXml.Proofs.Text.Numeral
import InvoiceXml.Proofs.Text.Split

/-!
# Paths of cursors

A cursor that moves have led to from the root of a tree (`Cursor.Reached`) was led there by a way of
names and numbers, one for each step of its path: every move is a walk (`Cursor.walk`) along such a
way, whatever texts it was given.

* `walk_eq_ok`: what a walk does to the path, the element and the address of a cursor;
* `followAll_steps`: the steps of a way, as written in a path, are followed along this way, where
  the names have no slashes and brackets and the numbers are machine words;
* `way_eq_of_address_eq`: no two ways lead to one place;
* **`navigate_path`**: so the path of a reached cursor leads back to it, and paths and places
  determine each other.
-/

namespace InvoiceXml

namespace Element

/-- Whether the name can be written in a path: it has no slash and no bracket. -/
def IsStep (element : Element) : Prop :=
  '/' ∉ element.name.toList ∧ '[' ∉ element.name.toList ∧ ']' ∉ element.name.toList

instance (element : Element) : Decidable element.IsStep :=
  inferInstanceAs (Decidable ('/' ∉ element.name.toList ∧ '[' ∉ element.name.toList ∧
    ']' ∉ element.name.toList))

/-- Whether the children can be counted by a machine word. -/
def IsCounted (element : Element) : Prop := element.children.length ≤ 2 ^ 64

instance (element : Element) : Decidable element.IsCounted :=
  inferInstanceAs (Decidable (element.children.length ≤ 2 ^ 64))

/-! ### Members and their positions -/

theorem getElem?_filter_zipIdx {name : String} {number index : Nat} {child : Element}
    {children : List Element} (start : Nat) :
    ((children.zipIdx start).filter fun entry => entry.1.isNamed name)[number]? = some (child, index) ↔
      ∃ position, index = start + position ∧ children[position]? = some child ∧ child.isNamed name = true ∧
        (children.take position).countP (isNamed name) = number := by
  induction children generalizing start number with
  | nil => simp
  | cons first rest ih =>
    rw [List.zipIdx_cons, List.filter_cons]
    by_cases hfirst : first.isNamed name = true
    · rw [if_pos hfirst]
      cases number with
      | zero =>
        constructor
        · intro h
          obtain ⟨rfl, rfl⟩ : first = child ∧ start = index := by simpa using h
          exact ⟨0, rfl, rfl, hfirst, rfl⟩
        · rintro ⟨position, rfl, hchild, -, hcount⟩
          cases position with
          | zero => simpa using hchild
          | succ position => simp [hfirst] at hcount
      | succ number =>
        rw [List.getElem?_cons_succ, ih]
        constructor
        · rintro ⟨position, rfl, hchild, hnamed, rfl⟩
          exact ⟨position + 1, by omega, by simpa using hchild, hnamed, by simp [hfirst]⟩
        · rintro ⟨position, rfl, hchild, hnamed, hcount⟩
          cases position with
          | zero => simp at hcount
          | succ position =>
            exact ⟨position, by omega, by simpa using hchild, hnamed, by simpa [hfirst] using hcount⟩
    · rw [if_neg hfirst, ih]
      constructor
      · rintro ⟨position, rfl, hchild, hnamed, rfl⟩
        exact ⟨position + 1, by omega, by simpa using hchild, hnamed, by simp [hfirst]⟩
      · rintro ⟨position, rfl, hchild, hnamed, hcount⟩
        cases position with
        | zero =>
          obtain rfl : first = child := by simpa using hchild
          exact absurd hnamed hfirst
        | succ position =>
          exact ⟨position, by omega, by simpa using hchild, hnamed, by simpa [hfirst] using hcount⟩

/-- The number of a member counts the members before it. -/
theorem member?_eq_some_iff {name : String} {number position : Nat} {child : Element}
    {children : List Element} :
    member? name number children = some (position, child) ↔
      children[position]? = some child ∧ child.isNamed name = true ∧
        (children.take position).countP (isNamed name) = number := by
  rw [member?, Option.map_eq_some_iff]
  constructor
  · rintro ⟨⟨found, index⟩, hfound, heq⟩
    obtain ⟨rfl, rfl⟩ : index = position ∧ found = child := by simpa using heq
    obtain ⟨place, hplace, h⟩ := (getElem?_filter_zipIdx 0).mp hfound
    obtain rfl : index = place := by simpa using hplace
    exact h
  · intro h
    exact ⟨(child, position), (getElem?_filter_zipIdx 0).mpr ⟨position, (Nat.zero_add position).symm, h⟩, rfl⟩

theorem map_snd_member? (name : String) (number : Nat) (children : List Element) :
    (member? name number children).map Prod.snd = (children.filter (isNamed name))[number]? := by
  have hfilter : (children.zipIdx.filter fun entry => entry.1.isNamed name).map Prod.fst =
      children.filter (isNamed name) := by
    have hchildren := List.zipIdx_map_fst 0 children
    rw [← hchildren, List.filter_map, hchildren]
    rfl
  rw [member?, Option.map_map, ← hfilter, List.getElem?_map]
  rfl

end Element

namespace Cursor

/-! ### Walks -/

/-- Moves a cursor along a way of names and numbers. -/
def walk (way : List (String × Nat)) (cursor : Cursor) : Except CursorError Cursor :=
  way.foldlM (fun cursor step => cursor.instance? step.1 step.2) cursor

variable {root : Element} {cursor next : Cursor} {way other : List (String × Nat)}

/-- A step as it is written in a path. -/
def stepText (step : String × Nat) : String := numbered step.1 step.2

theorem walk_cons (step : String × Nat) :
    walk (step :: way) cursor = .ok next ↔
      ∃ middle, cursor.instance? step.1 step.2 = .ok middle ∧ walk way middle = .ok next := by
  rw [walk, List.foldlM_cons, bind_eq_ok]
  rfl

theorem walk_append :
    walk (way ++ other) cursor = .ok next ↔ ∃ middle, walk way cursor = .ok middle ∧
      walk other middle = .ok next := by
  rw [walk, List.foldlM_append, bind_eq_ok]
  rfl

theorem walk_singleton (step : String × Nat) : walk [step] cursor = cursor.instance? step.1 step.2 := by
  rw [walk, List.foldlM_cons]
  exact bind_pure _

theorem instance?_eq_ok {name : String} {number : Nat} :
    cursor.instance? name number = .ok next ↔ ∃ position child,
      Element.member? name number cursor.element.children = some (position, child) ∧
        next = ⟨child, cursor.path ++ [numbered name number], cursor.address ++ [position]⟩ := by
  rw [instance?]
  cases Element.member? name number cursor.element.children with
  | none => simp
  | some found =>
    obtain ⟨position, child⟩ := found
    simp [eq_comm]

/-- **What a walk does.** The steps are added to the path, and the element is that at the end of the
way, which the address leads to as well. -/
theorem walk_eq_ok (h : walk way cursor = .ok next) :
    next.path = cursor.path ++ way.map stepText ∧ cursor.element.along? way = some next.element ∧
      ∃ positions, next.address = cursor.address ++ positions ∧
        cursor.element.at? positions = some next.element := by
  induction way generalizing cursor with
  | nil =>
    obtain rfl := Except.ok.inj h
    exact ⟨by simp, rfl, [], by simp, rfl⟩
  | cons step way ih =>
    obtain ⟨middle, hstep, h⟩ := (walk_cons step).mp h
    obtain ⟨position, child, hmember, rfl⟩ := instance?_eq_ok.mp hstep
    obtain ⟨hpath, halong, positions, haddress, hat⟩ := ih h
    have hnamed : (cursor.element.named step.1)[step.2]? = some child := by
      rw [Element.named, ← Element.map_snd_member?, hmember]
      rfl
    refine ⟨?_, ?_, position :: positions, ?_, ?_⟩
    · simpa [stepText] using hpath
    · rw [Element.along?_cons, hnamed]
      exact halong
    · simpa using haddress
    · rw [Element.at?, (Element.member?_eq_some_iff.mp hmember).1]
      exact hat

/-- **No two ways lead to one place.** -/
theorem way_eq_of_address_eq {first second : Cursor} (hfirst : walk way cursor = .ok first)
    (hsecond : walk other cursor = .ok second) (haddress : first.address = second.address) : way = other := by
  induction way generalizing cursor other with
  | nil =>
    obtain rfl := Except.ok.inj hfirst
    cases other with
    | nil => rfl
    | cons step other =>
      obtain ⟨middle, hstep, hsecond⟩ := (walk_cons step).mp hsecond
      obtain ⟨position, child, -, rfl⟩ := instance?_eq_ok.mp hstep
      obtain ⟨-, -, positions, hlonger, -⟩ := walk_eq_ok hsecond
      simp [hlonger] at haddress
  | cons step way ih =>
    obtain ⟨middle, hstep, hfirst⟩ := (walk_cons step).mp hfirst
    obtain ⟨position, child, hmember, rfl⟩ := instance?_eq_ok.mp hstep
    obtain ⟨-, -, positions, hlonger, -⟩ := walk_eq_ok hfirst
    cases other with
    | nil =>
      obtain rfl := Except.ok.inj hsecond
      simp [hlonger] at haddress
    | cons next other =>
      obtain ⟨middle, hnext, hsecond⟩ := (walk_cons next).mp hsecond
      obtain ⟨place, found, hfound, rfl⟩ := instance?_eq_ok.mp hnext
      obtain ⟨-, -, further, hfurther, -⟩ := walk_eq_ok hsecond
      -- the positions agree from the first step on, and a position has one child with one name and number
      obtain ⟨rfl, -⟩ : position = place ∧ positions = further := by simpa [hlonger, hfurther] using haddress
      obtain ⟨hchild, hnamed, hnumber⟩ := Element.member?_eq_some_iff.mp hmember
      obtain ⟨hsame, hother, hcount⟩ := Element.member?_eq_some_iff.mp hfound
      obtain rfl : child = found := Option.some.inj (hchild.symm.trans hsame)
      have hname : step.1 = next.1 := by
        rw [Element.isNamed, beq_iff_eq] at hnamed hother
        exact hnamed.symm.trans hother
      obtain rfl : step = next := Prod.ext hname (by rw [← hnumber, ← hcount, hname])
      rw [ih hfirst hsecond]

/-! ### Following the text of a way -/

/-- Whether a step can be written in a path and read again. -/
structure IsWritable (step : String × Nat) : Prop where
  slash : '/' ∉ step.1.toList
  opening : '[' ∉ step.1.toList
  closing : ']' ∉ step.1.toList
  number : step.2 < 2 ^ 64

theorem toList_stepText (step : String × Nat) :
    (stepText step).toList = step.1.toList ++ '[' :: (Text.digits step.2 ++ [']']) := by
  simp [stepText, numbered, Text.natText]

theorem notMem_digits {c : Char} (h : c.isDigit = false) (n : Nat) : c ∉ Text.digits n := by
  intro hmem
  rw [Text.isDigit_of_mem_digits hmem] at h
  cases h

theorem readNumber_digits {n : Nat} (h : n < 2 ^ 64) : readNumber (Text.digits n) = some n := by
  have hnumeral : Text.numeral? (Text.digits n) = some n :=
    Text.numeral?_eq_some_iff.mpr ⟨Text.digits_ne_nil n, fun c => Text.isDigit_of_mem_digits,
      Text.numeralValue_digits n⟩
  rw [readNumber]
  · rw [hnumeral]
    exact Option.filter_some_pos (decide_eq_true h)
  · intro rest heq
    exact notMem_digits (by decide) n (heq ▸ List.mem_cons_self)

/-- **A written step is followed as it is meant.** -/
theorem follow_stepText {step : String × Nat} (h : IsWritable step) (path : String) (cursor : Cursor) :
    follow path (stepText step).toList cursor = cursor.instance? step.1 step.2 := by
  have hopen : Text.cutAtFirst '[' (stepText step).toList =
      some (step.1.toList, Text.digits step.2 ++ [']']) :=
    Text.cutAtFirst_eq_some_iff.mpr ⟨toList_stepText step, h.opening⟩
  have hclose : Text.cutAtFirst ']' (Text.digits step.2 ++ [']']) = some (Text.digits step.2, []) :=
    Text.cutAtFirst_eq_some_iff.mpr ⟨rfl, notMem_digits (by decide) step.2⟩
  simp only [follow, hopen, if_neg h.closing, hclose, readNumber_digits h.number, String.ofList_toList]

theorem followAll_steps (hway : ∀ step ∈ way, IsWritable step) (path : String) (cursor : Cursor) :
    followAll path (way.map fun step => (stepText step).toList) cursor = walk way cursor := by
  induction way generalizing cursor with
  | nil => rfl
  | cons step way ih =>
    obtain ⟨hstep, hrest⟩ := List.forall_mem_cons.mp hway
    have hne : (stepText step).toList ≠ [] := by simp [toList_stepText]
    rw [List.map_cons, followAll, if_neg hne, follow_stepText hstep, walk, List.foldlM_cons]
    exact congrArg _ (funext (ih hrest))

/-- **Navigating along written steps is walking.** -/
theorem navigate_steps (hway : ∀ step ∈ way, IsWritable step) (cursor : Cursor) :
    cursor.navigate (Text.joined "/" (way.map stepText)) = walk way cursor := by
  have htext : (Text.joined "/" (way.map stepText)).toList =
      Text.joinWith ['/'] (way.map fun step => (stepText step).toList) := by
    rw [Text.joined, String.toList_ofList, List.map_map]
    rfl
  rw [navigate, htext]
  cases way with
  | nil => rfl
  | cons step way =>
    have hslash : ∀ piece ∈ (step :: way).map (fun step => (stepText step).toList), '/' ∉ piece := by
      intro piece hpiece
      obtain ⟨written, hwritten, rfl⟩ := List.mem_map.mp hpiece
      have hdigits : '/' ∉ Text.digits written.2 := notMem_digits (by decide) written.2
      simp [toList_stepText, (hway written hwritten).slash, hdigits]
    rw [Text.splitAtEach_joinWith (by simp) hslash]
    exact followAll_steps hway _ cursor

/-! ### Moves are walks -/

theorem exists_walk_of_follow {path : String} {step : List Char} (h : follow path step cursor = .ok next) :
    ∃ way, walk way cursor = .ok next := by
  simp only [follow] at h
  split at h
  · exact ⟨[(_, 0)], (walk_singleton _).trans h⟩
  · split at h
    · cases h
    · split at h
      · cases h
      · split at h
        · cases h
        · exact ⟨[(_, _)], (walk_singleton _).trans h⟩

theorem exists_walk_of_followAll {path : String} {steps : List (List Char)}
    (h : followAll path steps cursor = .ok next) :
    ∃ way, walk way cursor = .ok next := by
  induction steps generalizing cursor with
  | nil => exact ⟨[], h⟩
  | cons step rest ih =>
    rw [followAll] at h
    split at h
    · exact ih h
    · obtain ⟨middle, hstep, h⟩ := bind_eq_ok.mp h
      obtain ⟨way, hway⟩ := exists_walk_of_follow hstep
      obtain ⟨other, hother⟩ := ih h
      exact ⟨way ++ other, walk_append.mpr ⟨middle, hway, hother⟩⟩

/-- The cursors that moves lead to from the root of a tree. -/
inductive Reached (root : Element) : Cursor → Prop
  | start : Reached root (start root)
  | child {cursor next name} : Reached root cursor → cursor.child? name = .ok next → Reached root next
  | member {cursor next name number} : Reached root cursor →
    cursor.instance? name number = .ok next → Reached root next
  | family {cursor next name} : Reached root cursor → next ∈ cursor.family name → Reached root next
  | navigate {cursor next path} : Reached root cursor → cursor.navigate path = .ok next → Reached root next

theorem exists_walk_append {first : Cursor} (hfirst : ∃ way, walk way first = .ok cursor)
    (hnext : ∃ way, walk way cursor = .ok next) : ∃ way, walk way first = .ok next := by
  obtain ⟨way, hway⟩ := hfirst
  obtain ⟨other, hother⟩ := hnext
  exact ⟨way ++ other, walk_append.mpr ⟨cursor, hway, hother⟩⟩

/-- **Moves are walks.** -/
theorem Reached.exists_walk (h : Reached root cursor) : ∃ way, walk way (Cursor.start root) = .ok cursor := by
  induction h with
  | start => exact ⟨[], rfl⟩
  | child _ hchild ih => exact exists_walk_append ih ⟨[(_, 0)], (walk_singleton _).trans hchild⟩
  | member _ hmember ih => exact exists_walk_append ih ⟨[(_, _)], (walk_singleton _).trans hmember⟩
  | @family cursor next name _ hfamily ih =>
    obtain ⟨number, -, hnumber⟩ := List.mem_filterMap.mp hfamily
    refine exists_walk_append ih ⟨[(name, number)], (walk_singleton _).trans ?_⟩
    cases hmove : cursor.instance? name number with
    | error error =>
      rw [hmove] at hnumber
      cases hnumber
    | ok found =>
      rw [hmove] at hnumber
      exact congrArg Except.ok (Option.some.inj hnumber)
  | navigate _ hpath ih => exact exists_walk_append ih (exists_walk_of_followAll hpath)

/-- In a tree whose names can be written in paths every way can. -/
theorem isWritable_of_along? {element found : Element} (hnames : element.Everywhere Element.IsStep)
    (hcounted : element.Everywhere Element.IsCounted) (h : element.along? way = some found) :
    ∀ step ∈ way, IsWritable step := by
  induction way generalizing element with
  | nil => simp
  | cons step way ih =>
    rw [Element.along?_cons, Option.bind_eq_some_iff] at h
    obtain ⟨child, hchild, h⟩ := h
    refine List.forall_mem_cons.mpr ⟨?_, ih (hnames.of_named hchild) (hcounted.of_named hchild) h⟩
    have hname : child.name = step.1 := by
      have hnamed := (List.mem_filter.mp (List.mem_of_getElem? hchild)).2
      rwa [Element.isNamed, beq_iff_eq] at hnamed
    obtain ⟨hslash, hopening, hclosing⟩ := (hnames.of_named hchild).self
    rw [hname] at hslash hopening hclosing
    refine ⟨hslash, hopening, hclosing, ?_⟩
    have hnumber : step.2 < (element.named step.1).length := (List.getElem?_eq_some_iff.mp hchild).1
    have hfamily : (element.named step.1).length ≤ element.children.length := List.length_filter_le _ _
    have hchildren : element.children.length ≤ 2 ^ 64 := hcounted.self
    omega

/-- **Paths are addresses.** In a tree whose names have no slashes and brackets, and with no more
children anywhere than a machine word counts, the path of a cursor leads from the root to the cursor
itself, at the place where it stands; and cursors stand at one place iff they have one path. -/
theorem navigate_path (hnames : root.Everywhere Element.IsStep)
    (hcounted : root.Everywhere Element.IsCounted) :
    (∀ cursor, Reached root cursor → root.at? cursor.address = some cursor.element ∧
      (start root).navigate (Text.joined "/" cursor.path.tail) = .ok cursor) ∧
    ∀ first second, Reached root first → Reached root second →
      (first.path = second.path ↔ first.address = second.address) := by
  have hback : ∀ cursor, Reached root cursor → root.at? cursor.address = some cursor.element ∧
      (start root).navigate (Text.joined "/" cursor.path.tail) = .ok cursor := by
    intro cursor h
    obtain ⟨way, hway⟩ := h.exists_walk
    obtain ⟨hpath, halong, positions, haddress, hat⟩ := walk_eq_ok hway
    obtain rfl : cursor.address = positions := haddress
    have htail : cursor.path.tail = way.map stepText := congrArg List.tail hpath
    exact ⟨hat, htail ▸ (navigate_steps (isWritable_of_along? hnames hcounted halong) _).trans hway⟩
  refine ⟨hback, fun first second hfirst hsecond => ⟨fun hpath => ?_, fun haddress => ?_⟩⟩
  · -- both are where the path leads
    have hsame := (hback first hfirst).2.symm.trans (hpath ▸ (hback second hsecond).2)
    rw [Except.ok.inj hsame]
  · obtain ⟨way, hway⟩ := hfirst.exists_walk
    obtain ⟨other, hother⟩ := hsecond.exists_walk
    obtain rfl := way_eq_of_address_eq hway hother haddress
    rw [(walk_eq_ok hway).1, (walk_eq_ok hother).1]

/-- The way to the text of the second item, by its family and then along a path. -/
theorem navigate_path_items :
    let item := fun text => ({ name := "ram:ID", text := some text } : Element)
    let root : Element := { name := "DOC", children := [
      { name := "ITEM", children := [item "a"] }, item "b",
      { name := "ITEM", children := [item "c", item "d"] }] }
    let cursor : Cursor := ⟨item "d", ["DOC", "ITEM[1]", "ram:ID[1]"], [2, 1]⟩
    root.Everywhere Element.IsStep ∧ root.Everywhere Element.IsCounted ∧ Reached root cursor ∧
      (start root).navigate "ITEM[1]/ram:ID[1]" = .ok cursor ∧ root.at? [2, 1] = some (item "d") ∧
      ∀ other, Reached root other →
          (other.path = ["DOC", "ITEM[1]", "ram:ID[1]"] ↔ other.address = [2, 1]) := by
  intro item root cursor
  have hnames : root.Everywhere Element.IsStep := by decide +kernel
  have hcounted : root.Everywhere Element.IsCounted := by decide +kernel
  let items : Cursor := ⟨{ name := "ITEM", children := [item "c", item "d"] }, ["DOC", "ITEM[1]"], [2]⟩
  have hfamily : items ∈ (start root).family "ITEM" := List.mem_filterMap.mpr ⟨1, by decide, rfl⟩
  have hnavigate : items.navigate "ram:ID[1]" = .ok cursor := rfl
  have hreached : Reached root cursor := .navigate (.family .start hfamily) hnavigate
  obtain ⟨hleads, hunique⟩ := navigate_path hnames hcounted
  obtain ⟨hat, hback⟩ := hleads cursor hreached
  exact ⟨hnames, hcounted, hreached, hback, hat, fun other hother => hunique other cursor hother hreached⟩

end Cursor

end InvoiceXml
