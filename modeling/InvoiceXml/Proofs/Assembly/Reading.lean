import InvoiceXml.Proofs.Assembly.WriteList
import Mathlib.Data.List.Forall2

/-!
# Reading a document

What can be read off a document that was assembled, in terms of its write list (`Document.Reads`).
Elements are reached by the names on the way; `textsAt` gives the texts of all that are reached.

* `exists_reads`: an assembled document reads as its write list;
* **`forall₂_named`**: a family shows a list of things, one in each member, if the writes enter
  exactly so many members and each shows its thing;
* **`textsAt_eq_singleton`**: where exactly one text is written, and nothing on the way to it is
  repeated, it is the only one that is reached.
-/

namespace InvoiceXml

/-- The texts of all elements that are reached by names. -/
def Element.textsAt : List String → Element → List (Option String)
  | [], element => [element.text]
  | name :: rest, element => (element.named name).flatMap (textsAt rest)

/-- A text that is reached is that of an element at an address. -/
theorem Element.exists_along?_of_mem_textsAt {place : List String} {element : Element} {text : Option String}
    (h : text ∈ element.textsAt place) :
    ∃ address found, element.along? address = some found ∧ found.text = text := by
  induction place generalizing element with
  | nil => exact ⟨[], element, rfl, (List.mem_singleton.mp h).symm⟩
  | cons name rest ih =>
    obtain ⟨child, hchild, htext⟩ := List.mem_flatMap.mp h
    obtain ⟨address, found, hfound, htext⟩ := ih htext
    obtain ⟨number, hnumber⟩ := List.getElem?_of_mem hchild
    refine ⟨(name, number) :: address, found, ?_, htext⟩
    rw [Element.along?_cons, hnumber]
    exact hfound

/-- A way that passes a member of a family goes through it or a later one. -/
theorem Element.passes_append_singleton {way outer : List (String × Nat)} {name : String} {number : Nat} :
    Passes way (outer ++ [(name, number)]) ↔ ∃ further, number ≤ further ∧
      outer ++ [(name, further)] <+: way := by
  constructor
  · intro h
    obtain ⟨other, name', number', further, heq, hle, hunder⟩ := h
    obtain ⟨rfl, hlast⟩ := List.append_inj' heq rfl
    obtain ⟨rfl, rfl⟩ := Prod.mk.inj (List.singleton_inj.mp hlast)
    exact ⟨further, hle, hunder⟩
  · intro h
    obtain ⟨further, hle, hunder⟩ := h
    exact ⟨outer, name, number, further, rfl, hle, hunder⟩

namespace Document

theorem at?_append {document : Document} {outer : List (String × Nat)} (h : outer ≠ [])
    (rest : List (String × Nat)) :
    document.at? (outer ++ rest) = (document.at? outer).bind (Element.along? rest) := by
  cases outer with
  | nil => exact absurd rfl h
  | cons first inner =>
    rw [List.cons_append, at?, at?]
    split
    · exact Element.along?_append inner rest document.root
    · rfl

/-- The members of a family are found at its numbers. -/
theorem getElem?_named {document : Document} {address : List (String × Nat)} {element : Element}
    (hat : document.at? address = some element) (name : String) (number : Nat) :
    (element.named name)[number]? = document.at? (address ++ [(name, number)]) := by
  have hne : address ≠ [] := by
    rintro rfl
    cases hat
  rw [at?_append hne, hat, Option.bind_some, Element.along?_cons]
  cases (element.named name)[number]? <;> rfl

/-- Whether a document reads as a list of writes: what exists, and what the texts are. -/
structure Reads (writes : List Write) (document : Document) : Prop where
  isSome_iff : ∀ address, address ≠ [(document.root.name, 0)] →
    ((document.at? address).isSome = true ↔ ∃ write ∈ writes, Element.Passes write.address address)
  text : ∀ address element, document.at? address = some element →
    element.text = Assembly.lastText writes address

end Document

namespace Assembly

/-- An assembled document reads as its write list. -/
theorem exists_reads {composed : ComposedSchema} {options : AssemblyOptions} {data : Data}
    {document : Document} (h : assemble composed options data = .ok document) :
    ∃ writes, writeList composed options.leading data = some writes ∧ document.Reads writes := by
  obtain ⟨writes, hwrites, hplace⟩ := placeAll_writeList h
  obtain ⟨hroot, hall⟩ := placeAll_eq_ok hplace
  exact ⟨writes, hwrites, isSome_at?_withWrites hroot hall, fun _ _ hat => text_at?_withWrites hroot hall hat⟩

/-- Where only one text is written, it is the last. -/
theorem lastText_eq_some {writes : List Write} {address : List (String × Nat)} {text : String}
    (hsome : ∃ write ∈ writes, write.address = address ∧ write.content.text? = some text)
    (honly : ∀ write ∈ writes, write.address = address →
      ∀ other, write.content.text? = some other → other = text) : lastText writes address = some text := by
  rw [lastText]
  cases hlast : (writes.filterMap fun write =>
      if write.address = address then write.content.text? else none).getLast? with
  | none =>
    obtain ⟨write, hwrite, haddress, htext⟩ := hsome
    have hmem : text ∈ writes.filterMap fun write =>
        if write.address = address then write.content.text? else none :=
      List.mem_filterMap.mpr ⟨write, hwrite, by rw [if_pos haddress, htext]⟩
    rw [List.getLast?_eq_none_iff.mp hlast] at hmem
    cases hmem
  | some last =>
    obtain ⟨write, hwrite, hvalue⟩ := List.mem_filterMap.mp (List.mem_of_getLast? hlast)
    split at hvalue
    · rename_i haddress
      rw [honly write hwrite haddress last hvalue]
    · cases hvalue

end Assembly

namespace Document.Reads

variable {writes : List Write} {document : Document}

/-- A member of a family exists iff something is written in it or in a later one. -/
theorem isSome_member_iff (h : document.Reads writes) {outer : List (String × Nat)} (houter : outer ≠ [])
    (name : String) (number : Nat) :
    (document.at? (outer ++ [(name, number)])).isSome = true ↔
      ∃ write ∈ writes, ∃ further, number ≤ further ∧ outer ++ [(name, further)] <+: write.address := by
  rw [h.isSome_iff]
  · simp only [Element.passes_append_singleton]
  · intro heq
    have hlength := congrArg List.length heq
    have hpos : 0 < outer.length := List.length_pos_of_ne_nil houter
    rw [List.length_append, List.length_singleton, List.length_singleton] at hlength
    omega

/-- **A family shows a list of things**, one in each member, if no write goes beyond its length, and
each member is entered and shows its thing. -/
theorem forall₂_named {α : Type} (h : document.Reads writes) {outer : List (String × Nat)} {element : Element}
    (hat : document.at? outer = some element) {name : String} {items : List α} {shows : α → Element → Prop}
    (hwithin : ∀ write ∈ writes, ∀ number, outer ++ [(name, number)] <+: write.address →
      number < items.length)
    (henters : ∀ number, number < items.length → ∃ write ∈ writes, outer ++ [(name, number)] <+:
      write.address)
    (hshows : ∀ number item child, items[number]? = some item →
      document.at? (outer ++ [(name, number)]) = some child → shows item child) :
    List.Forall₂ shows items (element.named name) := by
  have houter : outer ≠ [] := by
    rintro rfl
    cases hat
  have hmember : ∀ number, ((element.named name)[number]?).isSome = true ↔ number < items.length := by
    intro number
    rw [getElem?_named hat, h.isSome_member_iff houter]
    constructor
    · intro h
      obtain ⟨write, hwrite, further, hle, hunder⟩ := h
      have hlt := hwithin write hwrite further hunder
      omega
    · intro hlt
      obtain ⟨write, hwrite, hunder⟩ := henters number hlt
      exact ⟨write, hwrite, number, Nat.le_refl number, hunder⟩
  have hlength : items.length = (element.named name).length := by
    have hlt : ∀ number, number < (element.named name).length ↔ number < items.length := by
      intro number
      rw [← hmember, isSome_getElem?]
    have hitems := hlt items.length
    have hnamed := hlt (element.named name).length
    omega
  refine List.forall₂_of_length_eq_of_get hlength fun number hitem hchild => ?_
  refine hshows number _ _ (List.getElem?_eq_getElem hitem) ?_
  rw [← getElem?_named hat]
  exact List.getElem?_eq_getElem hchild

/-- A family that is entered, but not beyond its first member, has only that member. -/
theorem exists_named_eq_singleton (h : document.Reads writes) {outer : List (String × Nat)}
    {element : Element}
    (hat : document.at? outer = some element) {name : String}
    (hsingle : ∀ write ∈ writes, ∀ number, outer ++ [(name, number)] <+: write.address → number = 0)
    (henters : ∃ write ∈ writes, outer ++ [(name, 0)] <+: write.address) :
    ∃ child, element.named name = [child] ∧ document.at? (outer ++ [(name, 0)]) = some child := by
  have hfamily : List.Forall₂ (fun (_ : Unit) child => document.at? (outer ++ [(name, 0)]) = some child) [()]
      (element.named name) := by
    refine h.forall₂_named hat ?_ ?_ ?_
    · intro write hwrite number hunder
      rw [hsingle write hwrite number hunder]
      exact Nat.zero_lt_one
    · intro number hlt
      obtain rfl : number = 0 := Nat.lt_one_iff.mp hlt
      exact henters
    · intro number item child hitem hchild
      obtain ⟨hlt, -⟩ := List.getElem?_eq_some_iff.mp hitem
      obtain rfl : number = 0 := Nat.lt_one_iff.mp hlt
      exact hchild
  cases hnamed : element.named name with
  | nil =>
    rw [hnamed] at hfamily
    cases hfamily
  | cons child rest =>
    rw [hnamed] at hfamily
    cases hfamily with
    | cons hchild hrest =>
      cases hrest
      exact ⟨child, rfl, hchild⟩

/-- **The only text that is written on a way of names** is the only one there, if nothing on the way
repeats. -/
theorem textsAt_eq_singleton (h : document.Reads writes) {place : List String} {text : String} :
    ∀ {address : List (String × Nat)} {element : Element}, document.at? address = some element →
      (∃ write ∈ writes, write.address = address ++ place.map (·, 0) ∧ write.content.text? = some text) →
      (∀ write ∈ writes, ∀ outer name number, address ++ outer ++ [(name, number)] <+: write.address →
        outer.map (·.1) ++ [name] <+: place → number = 0) →
      (∀ write ∈ writes, write.address = address ++ place.map (·, 0) →
        ∀ other, write.content.text? = some other → other = text) →
      element.textsAt place = [some text] := by
  induction place with
  | nil =>
    intro address element hat hsome _ honly
    simp only [List.map_nil, List.append_nil] at hsome honly
    rw [Element.textsAt, h.text address element hat, Assembly.lastText_eq_some hsome honly]
  | cons name rest ih =>
    intro address element hat hsome hsingle honly
    have hassoc : ∀ way : List (String × Nat), address ++ (name, 0) :: way =
        address ++ [(name, 0)] ++ way := by
      intro way
      simp
    have hway : address ++ (name :: rest).map (·, 0) = address ++ [(name, 0)] ++ rest.map (·, 0) := hassoc _
    rw [hway] at hsome honly
    obtain ⟨child, hfamily, hchild⟩ : ∃ child, element.named name = [child] ∧
        document.at? (address ++ [(name, 0)]) = some child := by
      refine h.exists_named_eq_singleton hat ?_ ?_
      · intro write hwrite number hunder
        exact hsingle write hwrite [] name number (by simpa using hunder) (by simp)
      · obtain ⟨write, hwrite, haddress, -⟩ := hsome
        exact ⟨write, hwrite, haddress ▸ List.prefix_append _ _⟩
    rw [Element.textsAt, hfamily, List.flatMap_singleton]
    refine ih hchild hsome ?_ honly
    intro write hwrite outer inner number hunder hplace
    refine hsingle write hwrite ((name, 0) :: outer) inner number ?_ ?_
    · rw [hassoc outer]
      exact hunder
    · rw [List.map_cons, List.cons_append, List.cons_prefix_cons]
      exact ⟨rfl, hplace⟩

end Document.Reads

end InvoiceXml
