import InvoiceXml.Proofs.Assembly.Order
import InvoiceXml.Proofs.Assembly.WriteList

/-!
# Families in a document

The children of an element are its families, one after the other. A way that goes through an element
enters one of them (`entered?`), and the families stand in the order in which the writes of the
document first enter them. A family that is there grows in place, however late its next member
comes, so it is enough to look at pairs of families (`precedes_at?`) and to put the pairs together:

* `eq_flatMap_filter`: a list in which each two keys are in order is made of its parts by key;
* **`children_of_writeList`**: the children of every element of an assembled document are the
  families that the write list enters, each as a whole, in the order of the list;
* `exists_at?_of_mem_children`: no element is left out, since every child of one has an address of
  its own.
-/

namespace InvoiceXml

/-! ### Lists by key -/

section Keys

variable {α : Type} {key : α → String}

/-- A list starts with what meets a condition, if none of it stands behind an element that does not. -/
theorem filter_append_filter_not {p : α → Bool} {l : List α}
    (h : l.Pairwise fun a later => ¬(p a = false ∧ p later = true)) :
    l.filter p ++ l.filter (fun a => !p a) = l := by
  induction l with
  | nil => rfl
  | cons a rest ih =>
    obtain ⟨hfirst, hrest⟩ := List.pairwise_cons.mp h
    cases ha : p a with
    | true => simp [ha, ih hrest]
    | false =>
      have hnone : ∀ later ∈ rest, p later = false := fun later hlater => by
        simpa [ha] using hfirst later hlater
      have hkeep : rest.filter (fun a => !p a) = rest := List.filter_eq_self.mpr (by simpa using hnone)
      have hdrop : rest.filter p = [] := List.filter_eq_nil_iff.mpr (by simpa using hnone)
      simp [ha, hkeep, hdrop]

/-- **Order by pairs.** A list is made of its parts by key, if the keys of each two parts are in
order in it. -/
theorem eq_flatMap_filter {keys : List String} (hdistinct : keys.Nodup) {l : List α}
    (hkeys : ∀ a ∈ l, key a ∈ keys)
    (horder : keys.Pairwise fun first second => l.Pairwise fun a later =>
      ¬(key a = second ∧ key later = first)) :
    l = keys.flatMap fun name => l.filter fun a => key a == name := by
  induction keys generalizing l with
  | nil => exact List.eq_nil_iff_forall_not_mem.mpr fun a ha => List.not_mem_nil (hkeys a ha)
  | cons first rest ih =>
    obtain ⟨hnew, hdistinct⟩ := List.nodup_cons.mp hdistinct
    obtain ⟨hfirst, horder⟩ := List.pairwise_cons.mp horder
    have hfront : l.filter (fun a => key a == first) ++ l.filter (fun a => !(key a == first)) = l := by
      refine filter_append_filter_not (List.pairwise_iff_forall_sublist.mpr ?_)
      intro a later hsublist h
      have hmem : key a ∈ rest := by
        have hkey := hkeys a (hsublist.subset List.mem_cons_self)
        simpa [show key a ≠ first by simpa using h.1] using hkey
      exact List.pairwise_iff_forall_sublist.mp (hfirst _ hmem) hsublist ⟨rfl, by simpa using h.2⟩
    have hothers : l.filter (fun a => !(key a == first)) =
        rest.flatMap fun name => l.filter fun a => key a == name := by
      rw [ih hdistinct (l := l.filter fun a => !(key a == first)) ?_ ?_]
      · refine List.flatMap_congr fun name hname => ?_
        rw [List.filter_filter]
        refine List.filter_congr fun a _ => ?_
        by_cases hkey : key a = name
        · have hne : key a ≠ first := by rintro rfl; exact hnew (hkey ▸ hname)
          simp [hkey, hkey ▸ hne]
        · simp [hkey]
      · intro a ha
        obtain ⟨ha, hother⟩ := List.mem_filter.mp ha
        simpa [show key a ≠ first by simpa using hother] using hkeys a ha
      · exact horder.imp fun hpair => hpair.sublist List.filter_sublist
    rw [List.flatMap_cons, ← hothers, hfront]

/-- The keys of parts that are not empty, in their order. -/
theorem eraseDups_map_flatMap {keys : List String} (hdistinct : keys.Nodup) {part : String → List α}
    (hpart : ∀ name ∈ keys, part name ≠ [] ∧ ∀ a ∈ part name, key a = name) :
    ((keys.flatMap part).map key).eraseDups = keys := by
  induction keys with
  | nil => rfl
  | cons first rest ih =>
    obtain ⟨hnew, hdistinct⟩ := List.nodup_cons.mp hdistinct
    obtain ⟨⟨hsome, hfirst⟩, hrest⟩ := List.forall_mem_cons.mp hpart
    have hothers : ∀ name ∈ (rest.flatMap part).map key, name ≠ first := by
      rintro name hname rfl
      obtain ⟨a, ha, hkey⟩ := List.mem_map.mp hname
      obtain ⟨other, hother, ha⟩ := List.mem_flatMap.mp ha
      exact hnew (hkey ▸ (hrest other hother).2 a ha ▸ hother)
    have hsame : (part first).map key = List.replicate (part first).length first := by
      rw [List.eq_replicate_iff]
      exact ⟨List.length_map .., by simpa using hfirst⟩
    obtain ⟨n, hn⟩ := Nat.exists_eq_succ_of_ne_zero (List.length_eq_zero_iff.not.mpr hsome)
    rw [List.flatMap_cons, List.map_append, hsame, hn, List.replicate_succ, List.cons_append,
      List.eraseDups_cons, List.filter_append]
    have hdrop : (List.replicate n first).filter (fun b => !b == first) = [] := by simp
    have hkeep : ((rest.flatMap part).map key).filter (fun b => !b == first) = (rest.flatMap part).map key :=
      List.filter_eq_self.mpr fun name hname => by simpa using hothers name hname
    rw [hdrop, hkeep, List.nil_append, ih hdistinct hrest]

/-- Of two names the one that comes first without repetitions came first before. -/
theorem pairwise_eraseDups (names : List String) :
    names.eraseDups.Pairwise fun first second =>
      first ≠ second ∧ ∀ before after, names = before ++ second :: after → first ∈ before := by
  induction names using List.reverseRecOn with
  | nil => exact List.Pairwise.nil
  | append_singleton init last ih =>
    have hmore : ∀ {first second}, first ∈ init →
        (∀ before after, init = before ++ second :: after → first ∈ before) →
        ∀ before after, init ++ [last] = before ++ second :: after → first ∈ before := by
      intro first second hfirst hinit before after hsplit
      rcases List.eq_nil_or_concat after with rfl | ⟨others, other, rfl⟩
      · rwa [← (List.append_inj' hsplit rfl).1]
      · rw [List.concat_eq_append, ← List.cons_append, ← List.append_assoc] at hsplit
        exact hinit before others (List.append_inj' hsplit rfl).1
    have hold : init.eraseDups.Pairwise fun first second =>
        first ≠ second ∧ ∀ before after, init ++ [last] = before ++ second :: after → first ∈ before :=
      ih.imp_of_mem fun hfirst _ h => ⟨h.1, hmore (List.mem_eraseDups.mp hfirst) h.2⟩
    rw [List.eraseDups_append]
    by_cases hlast : last ∈ init
    · have hnone : [last].removeAll init = [] := by simp [List.removeAll, hlast]
      rwa [hnone, List.eraseDups_nil, List.append_nil]
    · have hnew : [last].removeAll init = [last] := by simp [List.removeAll, hlast]
      rw [hnew, List.pairwise_append]
      refine ⟨hold, List.pairwise_singleton _ _, fun first hfirst second hsecond => ?_⟩
      have hfirst := List.mem_eraseDups.mp hfirst
      obtain rfl : second = last := List.mem_singleton.mp (List.mem_eraseDups.mp hsecond)
      refine ⟨fun heq => hlast (heq ▸ hfirst), hmore hfirst fun before after hsplit => ?_⟩
      exact absurd (by simp [hsplit]) hlast

end Keys

/-! ### The families that writes enter -/

namespace Element

/-- The name of the family below an element that a way enters, if it goes through the element and further. -/
def entered? : (outer way : List (String × Nat)) → Option String
  | [], [] => none
  | [], (name, _) :: _ => some name
  | _ :: _, [] => none
  | first :: outer, step :: way => if first = step then entered? outer way else none

theorem entered?_eq_some_iff {name : String} {outer way : List (String × Nat)} :
    entered? outer way = some name ↔ Enters name outer way := by
  induction outer generalizing way with
  | nil =>
    cases way with
    | nil => simp [entered?, Enters]
    | cons step way =>
      obtain ⟨other, number⟩ := step
      simp [entered?, Enters, eq_comm]
  | cons first outer ih =>
    cases way with
    | nil => simp [entered?, Enters]
    | cons step way =>
      rw [entered?]
      split
      · rename_i hstep
        simp [ih, Enters, hstep]
      · rename_i hstep
        simp [Enters, hstep]

end Element

namespace Assembly

open Element (Enters entered? entered?_eq_some_iff)

/-- The names of the families below an element that writes enter, in the order of the writes. -/
def enteredBy (writes : List Write) (address : List (String × Nat)) : List String :=
  writes.filterMap fun write => entered? address write.address

theorem mem_enteredBy {writes : List Write} {address : List (String × Nat)} {name : String} :
    name ∈ enteredBy writes address ↔ ∃ write ∈ writes, Enters name address write.address := by
  simp only [enteredBy, List.mem_filterMap, entered?_eq_some_iff]

section Document

variable {namespaces : List (String × String)} {writes : List Write} {document : Document}
  (hroot : document.root = (newRoot namespaces document.root.name).withWrites writes)
  (hall : ∀ write ∈ writes, write.StartsAt document.root.name)

include hroot hall

/-- A family stands before those that are first entered after it. -/
theorem precedes_of_mem_before {address : List (String × Nat)} {element : Element}
    (hat : document.at? address = some element) {first second : String} (hne : first ≠ second)
    (hfirst : ∀ before after, enteredBy writes address = before ++ second :: after → first ∈ before) :
    element.Precedes first second := by
  refine precedes_at? hroot hall hne hat fun before write after hsplit hsecond => ?_
  refine mem_enteredBy.mp (hfirst _ (enteredBy after address) ?_)
  have hentered := entered?_eq_some_iff.mpr hsecond
  simp only [hsplit, enteredBy, List.filterMap_append, List.filterMap_cons, hentered]

/-- **The children of an element are its families in the order of writes.** -/
theorem children_withWrites {address : List (String × Nat)} {element : Element}
    (hat : document.at? address = some element) :
    element.children = (enteredBy writes address).eraseDups.flatMap element.named ∧
      (element.children.map Element.name).eraseDups = (enteredBy writes address).eraseDups := by
  have hpairs := pairwise_eraseDups (enteredBy writes address)
  have hdistinct : (enteredBy writes address).eraseDups.Nodup := hpairs.imp And.left
  have hhas : ∀ name, name ∈ (enteredBy writes address).eraseDups ↔ element.Has name := fun name =>
    List.mem_eraseDups.trans (mem_enteredBy.trans (has_at?_iff hroot hall hat).symm)
  have hchildren : element.children = (enteredBy writes address).eraseDups.flatMap element.named := by
    refine eq_flatMap_filter hdistinct (fun child hchild => (hhas _).mpr ⟨child, hchild, rfl⟩) ?_
    refine hpairs.imp fun hpair => ?_
    have hprecedes := precedes_of_mem_before hroot hall hat hpair.1 hpair.2
    rwa [Element.Precedes, List.pairwise_map] at hprecedes
  refine ⟨hchildren, ?_⟩
  rw [hchildren]
  refine eraseDups_map_flatMap hdistinct fun name hname => ⟨?_, fun child hchild => ?_⟩
  · obtain ⟨child, hchild, hname⟩ := (hhas name).mp hname
    exact List.ne_nil_of_mem (List.mem_filter.mpr ⟨hchild, by simpa [Element.isNamed] using hname⟩)
  · simpa [Element.isNamed] using (List.mem_filter.mp hchild).2

end Document

/-! ### Assembled documents -/

/-- A child of an element has an address of its own. -/
theorem exists_at?_of_mem_children {document : Document} {address : List (String × Nat)}
    {element child : Element} (hat : document.at? address = some element)
    (hchild : child ∈ element.children) :
    ∃ number, document.at? (address ++ [(child.name, number)]) = some child := by
  obtain ⟨number, hnumber⟩ := Element.exists_named_of_mem_children hchild
  exact ⟨number, (Document.getElem?_named hat _ _).symm.trans hnumber⟩

/-- **Families are whole and in the order of the document's writes.** Every write of the list
exists, and below each element the children are the families that the writes enter, one after the
other, in the order in which the writes first enter them; each of them has a member. -/
theorem children_of_writeList {composed : ComposedSchema} {options : AssemblyOptions} {data : Data}
    {document : Document} (h : assemble composed options data = .ok document) :
    ∃ writes, writeList composed options.leading data = some writes ∧
      ∀ address element, document.at? address = some element →
        element.children = (enteredBy writes address).eraseDups.flatMap element.named ∧
          (element.children.map Element.name).eraseDups = (enteredBy writes address).eraseDups := by
  obtain ⟨writes, hwrites, hplace⟩ := placeAll_writeList h
  obtain ⟨hroot, hall⟩ := placeAll_eq_ok hplace
  exact ⟨writes, hwrites, fun address element hat => children_withWrites hroot hall hat⟩

theorem children_of_writeList_titledNotes :
    ∃ document, assemble titledNotes {} titledNotesData = .ok document ∧
      ∃ writes, writeList titledNotes [] titledNotesData = some writes ∧
        ∀ address element, document.at? address = some element →
          element.children = (enteredBy writes address).eraseDups.flatMap element.named ∧
            (element.children.map Element.name).eraseDups = (enteredBy writes address).eraseDups := by
  have hok : (assemble titledNotes {} titledNotesData).toOption.isSome = true := by decide +kernel
  cases h : assemble titledNotes {} titledNotesData with
  | error error =>
    rw [h] at hok
    cases hok
  | ok document => exact ⟨document, rfl, children_of_writeList h⟩

end Assembly

end InvoiceXml
