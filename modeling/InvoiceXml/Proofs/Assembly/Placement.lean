import InvoiceXml.Assembly.Placement
import InvoiceXml.Proofs.Element.Address
import Mathlib.Data.List.Basic

/-!
# Placing a list of writes

A list of writes that all start at one root leaves a document that can be read off the list. `Document.at?`
finds elements by full addresses, root first.

* `placeAll_some_eq_ok_iff`, `placeAll_eq_ok`: placing succeeds exactly when all writes start at the root, and
  what it leaves is the root with the writes carried out in order (`withWrites`);
* **`isSome_at?_withWrites`**: an address below the root exists iff a write passes it;
* **`text_at?_withWrites`**, **`mem_attrs_at?_withWrites`**: texts and attributes are those written last.

The list is walked by induction; each write is one use of the address lemmas for `updateAlong`.
-/

namespace InvoiceXml

namespace Element

theorem lookup_setNamed_of_ne {name other : String} (h : other ≠ name) (value : String)
    (pairs : List (String × String)) : (setNamed name value pairs).lookup other = pairs.lookup other := by
  have hname : (other == name) = false := by simpa using h
  induction pairs with
  | nil => simp [setNamed, List.lookup_cons, hname]
  | cons head rest ih =>
    obtain ⟨n, old⟩ := head
    by_cases hn : n = name
    · subst hn
      simp [setNamed, List.lookup_cons, hname]
    · simp only [setNamed, if_neg hn, List.lookup_cons, ih]

theorem attr?_setAttr (name key value : String) (element : Element) :
    (element.setAttr name value).attr? key = if name = key then some value else element.attr? key := by
  by_cases h : name = key
  · subst h
    rw [if_pos rfl, attr?_setAttr_self]
  · rw [if_neg h]
    exact lookup_setNamed_of_ne (Ne.symm h) value element.attrs

/-- Whether no two attributes have one name. -/
def HasDistinctAttrs (element : Element) : Prop := (element.attrs.map (·.1)).Nodup

/-- The names of attributes stay different from each other when one is set. -/
theorem nodup_setNamed (name value : String) {pairs : List (String × String)}
    (h : (pairs.map (·.1)).Nodup) : ((setNamed name value pairs).map (·.1)).Nodup := by
  have hkeys : ∀ pairs : List (String × String), (setNamed name value pairs).map (·.1) =
      if name ∈ pairs.map (·.1) then pairs.map (·.1) else pairs.map (·.1) ++ [name] := by
    intro pairs
    induction pairs with
    | nil => simp [setNamed]
    | cons head rest ih =>
      obtain ⟨n, old⟩ := head
      by_cases hn : n = name
      · simp [setNamed, hn]
      · simp only [setNamed, if_neg hn, List.map_cons, ih, List.mem_cons]
        by_cases hrest : name ∈ rest.map (·.1) <;> simp [hrest, Ne.symm hn]
  rw [hkeys]
  split
  · exact h
  · rename_i hnew
    rw [List.nodup_append]
    refine ⟨h, by simp, ?_⟩
    intro a ha b hb
    rw [List.mem_singleton.mp hb]
    exact fun heq => hnew (heq ▸ ha)

/-- Where names are different from each other, looking one up finds what is there. -/
theorem mem_iff_lookup_eq_some {pairs : List (String × String)} (h : (pairs.map (·.1)).Nodup)
    (key value : String) : (key, value) ∈ pairs ↔ pairs.lookup key = some value := by
  induction pairs with
  | nil => simp
  | cons head rest ih =>
    obtain ⟨name, old⟩ := head
    obtain ⟨hnew, hrest⟩ := List.nodup_cons.mp h
    by_cases hkey : key = name
    · subst hkey
      have hnot : (key, value) ∉ rest := fun hmem => hnew (List.mem_map_of_mem (f := (·.1)) hmem)
      simp [hnot, eq_comm]
    · have hbeq : (key == name) = false := by simpa using hkey
      simp [List.lookup_cons, hbeq, hkey, ih hrest]

end Element

namespace Content

/-- The text that is written, if one is. -/
def text? : Content → Option String
  | text content => some content
  | touch | attr _ _ => none

/-- The value that is written to an attribute, if one is. -/
def attrValue? (key : String) : Content → Option String
  | attr name value => if name = key then some value else none
  | touch | text _ => none

theorem keepsShape_apply (content : Content) : Element.KeepsShape content.apply := by
  constructor <;> intro element <;> cases content <;> rfl

theorem text_apply (content : Content) (element : Element) :
    (content.apply element).text = content.text?.or element.text := by
  cases content <;> rfl

theorem attr?_apply (key : String) (content : Content) (element : Element) :
    (content.apply element).attr? key = (content.attrValue? key).or (element.attr? key) := by
  cases content with
  | touch => rfl
  | text content => rfl
  | attr name value =>
    show (element.setAttr name value).attr? key =
      (if name = key then some value else none).or (element.attr? key)
    rw [Element.attr?_setAttr]
    by_cases h : name = key <;> simp [h]

theorem hasDistinctAttrs_apply (content : Content) {element : Element} (h : element.HasDistinctAttrs) :
    (content.apply element).HasDistinctAttrs := by
  cases content with
  | touch => exact h
  | text content => exact h
  | attr name value => exact Element.nodup_setNamed name value h

end Content

namespace Element

/-- The element with writes carried out below it in order. -/
def withWrites (writes : List Write) (element : Element) : Element :=
  writes.foldl (fun element write => element.updateAlong write.content.apply write.way) element

theorem name_withWrites (writes : List Write) (element : Element) :
    (element.withWrites writes).name = element.name := by
  induction writes generalizing element with
  | nil => rfl
  | cons write rest ih =>
    show (withWrites rest (element.updateAlong write.content.apply write.way)).name = _
    rw [ih, name_updateAlong write.content.keepsShape_apply]

theorem isSome_along?_withWrites (writes : List Write) (address : List (String × Nat)) (element : Element) :
    ((element.withWrites writes).along? address).isSome = true ↔
      (element.along? address).isSome = true ∨ ∃ write ∈ writes, Passes write.way address := by
  induction writes generalizing element with
  | nil => simp [withWrites]
  | cons write rest ih =>
    show ((withWrites rest (element.updateAlong write.content.apply write.way)).along? address).isSome =
      true ↔ _
    rw [ih, isSome_along?_updateAlong write.content.keepsShape_apply, or_assoc]
    simp

/-- What is seen at an address is what was written there last, or else what was seen before. -/
theorem bind_along?_withWrites {see : Element → Option String} {value : Content → Option String}
    (hbare : ∀ name, see { name } = none)
    (hchildren : ∀ element children, see { element with children } = see element)
    (hvalue : ∀ content element, see (content.apply element) = (value content).or (see element))
    (writes : List Write) (address : List (String × Nat)) (element : Element) :
    ((element.withWrites writes).along? address).bind see =
      ((writes.filterMap fun write => if write.way = address then value write.content else none).getLast?).or
        ((element.along? address).bind see) := by
  induction writes generalizing element with
  | nil => simp [withWrites]
  | cons write rest ih =>
    show ((withWrites rest (element.updateAlong write.content.apply write.way)).along? address).bind see = _
    rw [ih, bind_along?_updateAlong write.content.keepsShape_apply hbare hchildren (hvalue write.content)]
    by_cases hway : address = write.way
    · subst hway
      cases hv : value write.content with
      | none => simp [hv]
      | some text =>
        rw [if_pos rfl, List.filterMap_cons, if_pos rfl, hv, List.getLast?_cons]
        cases (rest.filterMap fun write' =>
          if write'.way = write.way then value write'.content else none).getLast? <;> rfl
    · rw [if_neg hway, List.filterMap_cons, if_neg (Ne.symm hway)]

/-- What holds of all elements and of bare ones with names that writes bring, whatever their
children, and is kept by the writes, holds of all elements afterwards. -/
theorem everywhere_withWrites {holds : Element → Prop}
    (hchildren : ∀ element children, holds element → holds { element with children })
    {writes : List Write} (hbare : ∀ write ∈ writes, ∀ step ∈ write.way, holds { name := step.1 })
    (hkeeps : ∀ write ∈ writes, ∀ element, holds element → holds (write.content.apply element))
    {element : Element} (hall : element.Everywhere holds) :
    (element.withWrites writes).Everywhere holds := by
  induction writes generalizing element with
  | nil => exact hall
  | cons write rest ih =>
    obtain ⟨hbareWrite, hbareRest⟩ := List.forall_mem_cons.mp hbare
    obtain ⟨hkeepsWrite, hkeepsRest⟩ := List.forall_mem_cons.mp hkeeps
    have hfirst := everywhere_updateAlong write.content.keepsShape_apply hchildren hkeepsWrite hbareWrite hall
    exact ih hbareRest hkeepsRest hfirst

/-- No element carries two attributes of one name after writes, if none did before. -/
theorem hasDistinctAttrs_withWrites (writes : List Write) (element : Element)
    (hall : element.Everywhere HasDistinctAttrs) : (element.withWrites writes).Everywhere HasDistinctAttrs :=
  everywhere_withWrites (fun _ _ h => h) (fun _ _ _ _ => List.nodup_nil)
    (fun write _ _ h => write.content.hasDistinctAttrs_apply h) hall

end Element

namespace Write

/-- Where a write goes, root first. -/
def address (write : Write) : List (String × Nat) := (write.rootName, write.rootNumber) :: write.way

/-- Whether a write goes into the document with the root. -/
def StartsAt (name : String) (write : Write) : Prop := write.rootName = name ∧ write.rootNumber = 0

end Write

namespace Document

/-- The element at an address, root first. -/
def at? : List (String × Nat) → Document → Option Element
  | [], _ => none
  | first :: rest, document => if first = (document.root.name, 0) then document.root.along? rest else none

end Document

namespace Assembly

/-! ### The root -/

/-- The value of an attribute by which the root declares a namespace, the last one where several
have its name. -/
def declared (namespaces : List (String × String)) (key : String) : Option String :=
  (namespaces.filterMap fun entry => if namespaceName entry.1 = key then some entry.2 else none).getLast?

/-- A new root has a name and attributes, and nothing else. -/
theorem newRoot_eq (namespaces : List (String × String)) (name : String) :
    newRoot namespaces name = { name, attrs := (newRoot namespaces name).attrs } := by
  have hfold : ∀ (entries : List (String × String)) (root : Element),
      entries.foldl (fun root entry => root.setAttr (namespaceName entry.1) entry.2) root =
        { root with attrs :=
          (entries.foldl (fun root entry => root.setAttr (namespaceName entry.1) entry.2) root).attrs } := by
    intro entries
    induction entries with
    | nil => intro root; cases root; rfl
    | cons entry rest ih => intro root; exact ih (root.setAttr (namespaceName entry.1) entry.2)
  exact hfold namespaces { name }

theorem newRoot_name (namespaces : List (String × String)) (name : String) :
    (newRoot namespaces name).name = name := by
  rw [newRoot_eq]

theorem attr?_newRoot (namespaces : List (String × String)) (name key : String) :
    (newRoot namespaces name).attr? key = declared namespaces key := by
  have hfold : ∀ (entries : List (String × String)) (root : Element),
      (entries.foldl (fun root entry => root.setAttr (namespaceName entry.1) entry.2) root).attr? key =
        (declared entries key).or (root.attr? key) := by
    intro entries
    induction entries with
    | nil => intro root; rfl
    | cons entry rest ih =>
      intro root
      rw [List.foldl_cons, ih, Element.attr?_setAttr, declared, declared, List.filterMap_cons]
      by_cases hkey : namespaceName entry.1 = key
      · rw [if_pos hkey, if_pos hkey, List.getLast?_cons]
        cases (rest.filterMap fun entry =>
          if namespaceName entry.1 = key then some entry.2 else none).getLast? <;> rfl
      · rw [if_neg hkey, if_neg hkey]
  rw [newRoot, hfold]
  exact Option.or_none

theorem hasDistinctAttrs_newRoot (namespaces : List (String × String)) (name : String) :
    (newRoot namespaces name).HasDistinctAttrs := by
  have hfold : ∀ (entries : List (String × String)) (root : Element), root.HasDistinctAttrs →
      (entries.foldl (fun root entry => root.setAttr (namespaceName entry.1) entry.2)
        root).HasDistinctAttrs := by
    intro entries
    induction entries with
    | nil => intro root h; exact h
    | cons entry rest ih => intro root h; exact ih _ (Element.nodup_setNamed _ _ h)
  exact hfold namespaces { name } List.nodup_nil

/-- The root is all there is of a new document. -/
theorem isSome_along?_newRoot (namespaces : List (String × String)) (name : String)
    (address : List (String × Nat)) :
    ((newRoot namespaces name).along? address).isSome = true ↔ address = [] := by
  rw [newRoot_eq]
  cases address <;> simp [Element.along?, Element.named]

theorem everywhere_newRoot {holds : Element → Prop} {namespaces : List (String × String)} {name : String}
    (h : holds (newRoot namespaces name)) : (newRoot namespaces name).Everywhere holds := by
  intro address found hfound
  have hempty := (isSome_along?_newRoot namespaces name address).mp (by rw [hfound]; rfl)
  subst hempty
  obtain rfl := Option.some.inj hfound
  exact h

/-! ### When placing succeeds -/

theorem placeAll_some_eq_ok_iff {namespaces : List (String × String)} {writes : List Write} {root : Element}
    {result : Option Element} :
    placeAll namespaces writes (some root) = .ok result ↔
      (∀ write ∈ writes, write.StartsAt root.name) ∧ result = some (root.withWrites writes) := by
  induction writes generalizing root with
  | nil => simp [placeAll, Element.withWrites, eq_comm]
  | cons write rest ih =>
    by_cases hstart : write.StartsAt root.name
    · have hplace : placeWrite namespaces (some root) write =
          .ok (some (root.updateAlong write.content.apply write.way)) := by
        simp [placeWrite, hstart.1, hstart.2]
      have hname : (root.updateAlong write.content.apply write.way).name = root.name :=
        Element.name_updateAlong write.content.keepsShape_apply _ _
      show (placeWrite namespaces (some root) write).bind (placeAll namespaces rest) = .ok result ↔ _
      rw [hplace]
      show placeAll namespaces rest (some (root.updateAlong write.content.apply write.way)) = .ok result ↔ _
      rw [ih, hname, List.forall_mem_cons]
      constructor
      · intro h
        obtain ⟨hrest, hresult⟩ := h
        exact ⟨⟨hstart, hrest⟩, hresult⟩
      · intro h
        obtain ⟨⟨-, hrest⟩, hresult⟩ := h
        exact ⟨hrest, hresult⟩
    · have hplace : placeWrite namespaces (some root) write =
          .error (.multipleRoots root.name write.path.render) := by
        have hne : root.name ≠ write.rootName ∨ write.rootNumber ≠ 0 := by
          by_cases hroot : root.name = write.rootName
          · exact .inr fun hnumber => hstart ⟨hroot.symm, hnumber⟩
          · exact .inl hroot
        rw [placeWrite, Option.getD_some, if_pos hne]
      constructor
      · intro h
        have herror :
            (placeWrite namespaces (some root) write).bind (placeAll namespaces rest) = .ok result := h
        rw [hplace] at herror
        cases herror
      · intro h
        obtain ⟨hall, -⟩ := h
        exact absurd (hall write List.mem_cons_self) hstart

/-- Without a root the first write brings its own. -/
theorem placeAll_none_cons (namespaces : List (String × String)) (write : Write) (rest : List Write) :
    placeAll namespaces (write :: rest) none =
      placeAll namespaces (write :: rest) (some (newRoot namespaces write.rootName)) := rfl

theorem placeAll_eq_ok {namespaces : List (String × String)} {writes : List Write} {name : Option String}
    {root : Element} (h : placeAll namespaces writes (name.map (newRoot namespaces)) = .ok (some root)) :
    root = (newRoot namespaces root.name).withWrites writes ∧ ∀ write ∈ writes, write.StartsAt root.name := by
  have key : ∀ start, placeAll namespaces writes (some (newRoot namespaces start)) = .ok (some root) →
      root = (newRoot namespaces root.name).withWrites writes ∧
        ∀ write ∈ writes, write.StartsAt root.name := by
    intro start hplaced
    obtain ⟨hall, hroot⟩ := placeAll_some_eq_ok_iff.mp hplaced
    have hroot : root = (newRoot namespaces start).withWrites writes := Option.some.inj hroot
    have hname : root.name = start := by rw [hroot, Element.name_withWrites, newRoot_name]
    rw [newRoot_name] at hall
    rw [hname]
    exact ⟨hroot, hall⟩
  cases name with
  | some start => exact key start h
  | none =>
    cases writes with
    | nil => cases h
    | cons write rest => exact key write.rootName h

/-- Writes that all start at one root make up a document, if there are any. -/
theorem placeAll_of_startsAt (namespaces : List (String × String)) {writes : List Write} {name : String}
    (hne : writes ≠ []) (hall : ∀ write ∈ writes, write.StartsAt name) :
    placeAll namespaces writes none = .ok (some ((newRoot namespaces name).withWrites writes)) := by
  cases writes with
  | nil => exact absurd rfl hne
  | cons write rest =>
    have hname : write.rootName = name := (hall write List.mem_cons_self).1
    rw [placeAll_none_cons, hname, placeAll_some_eq_ok_iff, newRoot_name]
    exact ⟨hall, rfl⟩

/-- Placing fails in one way only. -/
theorem placeAll_eq_error {namespaces : List (String × String)} {writes : List Write} {start : Option Element}
    {error : AssemblyError} (h : placeAll namespaces writes start = .error error) :
    ∃ root xpath, error = .multipleRoots root xpath := by
  induction writes generalizing start with
  | nil => cases h
  | cons write rest ih =>
    have hbind : (placeWrite namespaces start write).bind (placeAll namespaces rest) = .error error := h
    cases hplace : placeWrite namespaces start write with
    | ok next =>
      rw [hplace] at hbind
      exact ih hbind
    | error first =>
      rw [hplace] at hbind
      obtain rfl : first = error := Except.error.inj hbind
      simp only [placeWrite] at hplace
      split at hplace
      · exact ⟨_, _, (Except.error.inj hplace).symm⟩
      · cases hplace

/-! ### What the document shows -/

/-- The text that is written last at an address. -/
def lastText (writes : List Write) (address : List (String × Nat)) : Option String :=
  (writes.filterMap fun write => if write.address = address then write.content.text? else none).getLast?

/-- The value that is written last to an attribute at an address; on the root a declaration of a namespace
comes before all writes. -/
def lastAttr (namespaces : List (String × String)) (writes : List Write) (address : List (String × Nat))
    (key : String) : Option String :=
  ((writes.filterMap fun write =>
    if write.address = address then write.content.attrValue? key else none).getLast?).or
      (if address.length = 1 then declared namespaces key else none)

variable {namespaces : List (String × String)} {writes : List Write} {document : Document}

/-- **What exists.** Below the root an address exists iff a write passes it. -/
theorem isSome_at?_withWrites
    (hroot : document.root = (newRoot namespaces document.root.name).withWrites writes)
    (hall : ∀ write ∈ writes, write.StartsAt document.root.name) (address : List (String × Nat))
    (hne : address ≠ [(document.root.name, 0)]) :
    (document.at? address).isSome = true ↔ ∃ write ∈ writes, Element.Passes write.address address := by
  cases address with
  | nil => simp [Document.at?, Element.not_passes_nil]
  | cons first rest =>
    have hpasses : ∀ write ∈ writes, Element.Passes write.address (first :: rest) ↔
        first = (document.root.name, 0) ∧ Element.Passes write.way rest := by
      intro write hwrite
      obtain ⟨hname, hnumber⟩ := hall write hwrite
      rw [Write.address, Element.passes_cons_cons, hname, hnumber]
      constructor
      · intro h
        rcases h with ⟨hrest, hfirst, hle⟩ | h
        · have hfirst : first = (document.root.name, 0) := Prod.ext hfirst (Nat.le_zero.mp hle)
          exact absurd (by rw [hfirst, hrest]) hne
        · exact h
      · exact .inr
    by_cases hfirst : first = (document.root.name, 0)
    · have hrest : rest ≠ [] := fun h => hne (by rw [hfirst, h])
      rw [Document.at?, if_pos hfirst, hroot, Element.isSome_along?_withWrites, isSome_along?_newRoot]
      constructor
      · intro h
        rcases h with h | ⟨write, hwrite, h⟩
        · exact absurd h hrest
        · exact ⟨write, hwrite, (hpasses write hwrite).mpr ⟨hfirst, h⟩⟩
      · intro h
        obtain ⟨write, hwrite, h⟩ := h
        exact .inr ⟨write, hwrite, ((hpasses write hwrite).mp h).2⟩
    · rw [Document.at?, if_neg hfirst]
      constructor
      · intro h
        cases h
      · intro h
        obtain ⟨write, hwrite, h⟩ := h
        exact absurd ((hpasses write hwrite).mp h).1 hfirst

/-- A reading of what was written at a full address is one of what was written on the way below the root. -/
theorem filterMap_address (hall : ∀ write ∈ writes, write.StartsAt document.root.name)
    (value : Content → Option String) (rest : List (String × Nat)) :
    (writes.filterMap fun write =>
        if write.address = (document.root.name, 0) :: rest then value write.content else none) =
      writes.filterMap fun write => if write.way = rest then value write.content else none := by
  apply List.filterMap_congr
  intro write hwrite
  obtain ⟨hname, hnumber⟩ := hall write hwrite
  simp [Write.address, hname, hnumber]

/-- **What the texts are.** The text of an element is the one written last. -/
theorem text_at?_withWrites
    (hroot : document.root = (newRoot namespaces document.root.name).withWrites writes)
    (hall : ∀ write ∈ writes, write.StartsAt document.root.name) {address : List (String × Nat)}
    {element : Element} (hat : document.at? address = some element) :
    element.text = lastText writes address := by
  cases address with
  | nil => cases hat
  | cons first rest =>
    rw [Document.at?] at hat
    split at hat
    · rename_i hfirst
      subst hfirst
      have hsee := Element.bind_along?_withWrites (fun _ => rfl) (fun _ _ => rfl) Content.text_apply
        writes rest (newRoot namespaces document.root.name)
      rw [← hroot, hat] at hsee
      have hnew : ((newRoot namespaces document.root.name).along? rest).bind Element.text = none := by
        rw [newRoot_eq]
        cases rest <;> simp [Element.along?, Element.named]
      rw [hnew, Option.or_none] at hsee
      rw [lastText, filterMap_address hall]
      exact hsee
    · cases hat

/-- **What the attributes are.** The attributes of an element are those written to it, each with the value
written last. -/
theorem mem_attrs_at?_withWrites
    (hroot : document.root = (newRoot namespaces document.root.name).withWrites writes)
    (hall : ∀ write ∈ writes, write.StartsAt document.root.name) {address : List (String × Nat)}
    {element : Element} (hat : document.at? address = some element) (key value : String) :
    (key, value) ∈ element.attrs ↔ lastAttr namespaces writes address key = some value := by
  cases address with
  | nil => cases hat
  | cons first rest =>
    rw [Document.at?] at hat
    split at hat
    · rename_i hfirst
      subst hfirst
      have hdistinct : element.HasDistinctAttrs :=
        Element.hasDistinctAttrs_withWrites writes (newRoot namespaces document.root.name)
          (everywhere_newRoot (hasDistinctAttrs_newRoot _ _)) rest element (hroot ▸ hat)
      have hsee := Element.bind_along?_withWrites (fun _ => rfl) (fun _ _ => rfl) (Content.attr?_apply key)
        writes rest (newRoot namespaces document.root.name)
      rw [← hroot, hat] at hsee
      have hnew : ((newRoot namespaces document.root.name).along? rest).bind (Element.attr? key) =
          if ((document.root.name, 0) :: rest).length = 1 then declared namespaces key else none := by
        cases rest with
        | nil => simp [Element.along?, attr?_newRoot]
        | cons next rest =>
          rw [newRoot_eq]
          simp [Element.along?, Element.named]
      rw [hnew] at hsee
      rw [Element.mem_iff_lookup_eq_some hdistinct, lastAttr, filterMap_address hall]
      exact iff_of_eq (congrArg (· = some value) hsee)
    · cases hat

end Assembly

end InvoiceXml
