import InvoiceXml.Proofs.Assembly.Locate
import InvoiceXml.Proofs.Assembly.Reading
import InvoiceXml.Proofs.Element.Order
import Mathlib.Data.List.Induction

/-!
# The order of elements in a document

Two families below one element stand in the order in which writes first enter them (`precedes_at?`).
So a ranking of the names on the way to an element orders a document if the writes come in its
order.

* **`precedes_of_inOrder`**: where two writes part, the later one goes to a family of higher rank,
  or returns to one that is there anyway (`Write.InOrder`); then each element has its families in
  the order of their ranks;
* **`pairwise_visits`**: of two visits the earlier is one of a field declared before, or of an
  earlier item of an array that both are in (`Visit.Before`).
-/

namespace InvoiceXml

/-! ### Families and first writes -/

namespace Element

/-- Below a bare root a family is there iff a write enters it. -/
theorem has_withWrites_iff {name : String} {outer : List (String × Nat)} {root element : Element}
    (hroot : root.children = []) {writes : List Write}
    (h : (root.withWrites writes).along? outer = some element) :
    element.Has name ↔ ∃ write ∈ writes, Enters name outer write.way := by
  have hbare : (root.along? (outer ++ [(name, 0)])).isSome = false := by
    cases outer <;> simp [along?, named, hroot]
  rw [has_iff_along? h, isSome_along?_withWrites, hbare]
  simp only [Bool.false_eq_true, false_or, enters_iff_passes]

/-- **Families stand in the order in which writes first enter them.** -/
theorem precedes_withWrites {first second : String} (hne : first ≠ second) {outer : List (String × Nat)}
    {root element : Element} (hroot : root.children = []) {writes : List Write}
    (hopen : ∀ before write after, writes = before ++ write :: after → Enters second outer write.way →
      ∃ earlier ∈ before, Enters first outer earlier.way)
    (h : (root.withWrites writes).along? outer = some element) : element.Precedes first second := by
  induction writes using List.reverseRecOn generalizing element with
  | nil =>
    have hbare : element.children = [] := by
      cases outer with
      | nil =>
        obtain rfl : root = element := Option.some.inj h
        exact hroot
      | cons step outer => simp [withWrites, along?, named, hroot] at h
    simp [Precedes, hbare]
  | append_singleton init write ih =>
    have hinit : ∀ before earlier after, init = before ++ earlier :: after → Enters second outer earlier.way →
        ∃ opener ∈ before, Enters first outer opener.way := by
      intro before earlier after hsplit
      exact hopen before earlier (after ++ [write]) (by rw [hsplit]; simp)
    rw [withWrites, List.foldl_append, List.foldl_cons, List.foldl_nil] at h
    obtain ⟨old, hold, hchildren⟩ := exists_of_along?_updateAlong write.content.keepsShape_apply h
    have horder : old.Precedes first second := by
      rcases hold with hold | hbare
      · exact ih hinit hold
      · simp [Precedes, hbare]
    have hkeep : old.Has second → old.Has first := by
      intro hsecond
      rcases hold with hold | hbare
      · obtain ⟨earlier, hearlier, henters⟩ := (has_withWrites_iff hroot hold).mp hsecond
        obtain ⟨before, after, hsplit⟩ := List.append_of_mem hearlier
        obtain ⟨opener, hopener, hfirst⟩ := hinit before earlier after hsplit henters
        exact (has_withWrites_iff hroot hold).mpr ⟨opener, by simp [hsplit, hopener], hfirst⟩
      · obtain ⟨child, hchild, -⟩ := hsecond
        rw [hbare] at hchild
        cases hchild
    rcases hchildren with hsame | ⟨step, rest, -, hstep⟩
    · rw [Precedes, hsame]
      exact horder
    · rw [Precedes, hstep]
      exact precedes_updateMember hne (name_updateAlong write.content.keepsShape_apply rest) horder
        fun _ => hkeep

end Element

open Element (Enters)

namespace Assembly

section Document

variable {namespaces : List (String × String)} {writes : List Write} {document : Document}
  (hroot : document.root = (newRoot namespaces document.root.name).withWrites writes)
  (hall : ∀ write ∈ writes, write.StartsAt document.root.name)

include hroot hall

/-- A family is there iff a write enters it. -/
theorem has_at?_iff {address : List (String × Nat)} {element : Element}
    (hat : document.at? address = some element) {name : String} :
    element.Has name ↔ ∃ write ∈ writes, Enters name address write.address := by
  have hne : address ++ [(name, 0)] ≠ [(document.root.name, 0)] := by
    cases address with
    | nil => cases hat
    | cons first rest => simp
  rw [Element.has_iff_named, Document.getElem?_named hat, isSome_at?_withWrites hroot hall _ hne]
  simp only [Element.enters_iff_passes]

/-- Families stand in the order in which writes first enter them. -/
theorem precedes_at? {first second : String} (hne : first ≠ second) {address : List (String × Nat)}
    {element : Element} (hat : document.at? address = some element)
    (hopen : ∀ before write after, writes = before ++ write :: after → Enters second address write.address →
      ∃ earlier ∈ before, Enters first address earlier.address) : element.Precedes first second := by
  cases address with
  | nil => cases hat
  | cons top outer =>
    rw [Document.at?] at hat
    split at hat
    · rename_i htop
      subst htop
      have henters : ∀ write ∈ writes, ∀ name,
          Enters name ((document.root.name, 0) :: outer) write.address ↔ Enters name outer write.way := by
        intro write hwrite name
        obtain ⟨hname, hnumber⟩ := hall write hwrite
        simp only [Enters, Write.address, hname, hnumber, List.cons_append, List.cons_prefix_cons, true_and]
      have hbare : (newRoot namespaces document.root.name).children = [] := by rw [newRoot_eq]
      rw [hroot] at hat
      refine Element.precedes_withWrites hne hbare ?_ hat
      intro before write after hsplit hsecond
      have hwrite : write ∈ writes := by simp [hsplit]
      obtain ⟨earlier, hearlier, hfirst⟩ :=
        hopen before write after hsplit ((henters write hwrite second).mpr hsecond)
      exact ⟨earlier, hearlier, (henters earlier (by simp [hsplit, hearlier]) first).mp hfirst⟩
    · cases hat

end Document

end Assembly

/-! ### Ranks -/

/-- Whether two writes come in the order of ranks: where they part, the later one goes to a family
of higher rank, or returns to one. -/
def Write.InOrder (rank : List String → Nat) (returns : List (String × Nat) → Write → Prop)
    (write later : Write) :
    Prop :=
  ∀ outer name other, Enters name outer write.address → Enters other outer later.address → name ≠ other →
    rank (outer.map Prod.fst ++ [name]) < rank (outer.map Prod.fst ++ [other]) ∨ returns outer later

namespace Assembly

/-- **A document follows the ranks that its writes follow**, if a family to which a write returns is
also entered by one that does not return. -/
theorem precedes_of_inOrder {namespaces : List (String × String)} {writes : List Write} {document : Document}
    (hroot : document.root = (newRoot namespaces document.root.name).withWrites writes)
    (hall : ∀ write ∈ writes, write.StartsAt document.root.name) {rank : List String → Nat}
    {returns : List (String × Nat) → Write → Prop} (horder : writes.Pairwise (Write.InOrder rank returns))
    (hreturns : ∀ write ∈ writes, ∀ name outer, Enters name outer write.address → returns outer write →
      ∃ opener ∈ writes, Enters name outer opener.address ∧ ¬returns outer opener)
    {address : List (String × Nat)} {element : Element} (hat : document.at? address = some element)
    {first second : String} (hhas : element.Has first)
    (hlt : rank (address.map Prod.fst ++ [first]) < rank (address.map Prod.fst ++ [second])) :
    element.Precedes first second := by
  have hne : first ≠ second := by
    rintro rfl
    exact Nat.lt_irrefl _ hlt
  have hopener : ∃ opener ∈ writes, Enters first address opener.address ∧ ¬returns address opener := by
    obtain ⟨write, hwrite, henters⟩ := (has_at?_iff hroot hall hat).mp hhas
    by_cases hreturn : returns address write
    · exact hreturns write hwrite first address henters hreturn
    · exact ⟨write, hwrite, henters, hreturn⟩
  obtain ⟨opener, hopener, henters, hreturn⟩ := hopener
  refine precedes_at? hroot hall hne hat ?_
  intro before write after hsplit hsecond
  rw [hsplit] at hopener horder
  rcases List.mem_append.mp hopener with hbefore | hafter
  · exact ⟨opener, hbefore, henters⟩
  · -- otherwise the write comes first, and so its rank is the lower one
    exfalso
    rcases List.mem_cons.mp hafter with rfl | hafter
    · exact hne (henters.unique hsecond)
    · have hpair := (List.pairwise_cons.mp (List.pairwise_append.mp horder).2.1).1 opener hafter
      rcases hpair address second first hsecond henters (Ne.symm hne) with hrank | hback
      · omega
      · exact hreturn hback

end Assembly

/-! ### Visits in order -/

/-- How an earlier visit stands to a later one: its field is declared before the other, or it is one
of an earlier item of an array with a group. -/
inductive Visit.Before (entries : List Entry) (visit later : Visit) : Prop
  | declared {entry other : Entry} (hsublist : [entry, other].Sublist entries) (hof : visit.Of entry)
      (hother : later.Of other)
  | item {group : String} {number further : Nat} (hlt : number < further)
      (hmem : (group, number) ∈ visit.bindings) (hfurther : (group, further) ∈ later.bindings)

namespace Assembly

open Schema (entriesOfField entriesBelow mem_entriesOfField mem_entriesBelow self_mem_entriesOfField)

theorem before_mono {entries more : List Entry} (h : entries.Sublist more) {visit later : Visit}
    (hbefore : visit.Before entries later) : visit.Before more later := by
  cases hbefore with
  | declared hsublist hof hother => exact .declared (hsublist.trans h) hof hother
  | item hlt hmem hfurther => exact .item hlt hmem hfurther

/-- Visits of one list come before those of another if their fields are declared before. -/
theorem before_append {first second : List Entry} {visit later : Visit}
    (hvisit : ∃ entry ∈ first, visit.Of entry) (hlater : ∃ entry ∈ second, later.Of entry) :
    visit.Before (first ++ second) later := by
  obtain ⟨entry, hentry, hof⟩ := hvisit
  obtain ⟨other, hother, hlaterOf⟩ := hlater
  exact .declared ((List.singleton_sublist.mpr hentry).append (List.singleton_sublist.mpr hother))
    hof hlaterOf

/-- A visit comes before those inside it. -/
theorem pairwise_before_cons {entry : Entry} {below : List Entry} {visit : Visit}
    {inside : List Visit} (hof : visit.Of entry)
    (hinside : ∀ later ∈ inside, ∃ other ∈ below, later.Of other)
    (hbelow : inside.Pairwise (Visit.Before below)) :
    (visit :: inside).Pairwise (Visit.Before (entry :: below)) := by
  refine List.pairwise_cons.mpr ⟨fun later hlater => ?_,
    hbelow.imp (before_mono (List.sublist_cons_self _ _))⟩
  exact before_append ⟨entry, List.mem_singleton_self entry, hof⟩ (hinside later hlater)

variable {groups : GroupIndex}

/-- Visits of items come in order, if those of each item do, and those of two items. -/
theorem pairwise_boundVisits {visits : FieldPath → Data → Nat → List Visit} {related : Visit → Visit → Prop}
    {path : FieldPath} {first : Nat}
    (hitem : ∀ i data, (visits (path.item i) data (first + i)).Pairwise related)
    (hitems : ∀ i j data other, i < j → ∀ visit ∈ visits (path.item i) data (first + i),
      ∀ later ∈ visits (path.item j) other (first + j), related visit later)
    (number : Nat) (items : List Data) :
    (boundVisits visits path first number items).Pairwise related := by
  induction items generalizing number with
  | nil => exact List.Pairwise.nil
  | cons item rest ih =>
    rw [boundVisits, List.pairwise_append]
    refine ⟨hitem _ _, ih _, fun visit hvisit later hlater => ?_⟩
    obtain ⟨i, other, -, hother⟩ := mem_boundVisits.mp hlater
    exact hitems _ _ _ _ (by omega) visit hvisit later hother

/-- The visits of a field come in order, if those inside it do. -/
theorem pairwise_visitsOfField {names scope : List String} {field : Field}
    (hgroup : field.type = .objectArray → field.group.isSome = true)
    (hbelow : ∀ fields, field.shape = some fields → ∀ (bindings : Bindings) (path : FieldPath) (data : Data)
      (frame : Frame), path.names = names → bindings.map (·.1) = (scope ++ field.boundGroup?.toList).reverse →
        (visitsOfFields groups bindings path data fields frame).Pairwise
          (Visit.Before (entriesBelow names (scope ++ field.boundGroup?.toList) fields)))
    {bindings : Bindings} {path : FieldPath} {value : Option Data} {frame : Frame}
    (hnames : path.names = names)
    (hscope : bindings.map (·.1) = scope.reverse) :
    (visitsOfField groups bindings path value field frame).Pairwise
      (Visit.Before (entriesOfField names scope field)) := by
  have hown : Visit.Of ⟨names, scope, field⟩ { path, field, value, bindings } := ⟨hnames, rfl, hscope⟩
  cases field with
  | mk type required shape key group sibling xpath extras transform fallback =>
    cases shape with
    | none => cases type <;> simp [visitsOfField]
    | some fields =>
      cases type with
      | scalar _ | choice _ => simp [visitsOfField]
      | object =>
        have hinner : bindings.map (·.1) = (scope ++ [] : List String).reverse := by simpa using hscope
        rw [visitsOfField, entriesOfField]
        exact pairwise_before_cons hown (fun later => exists_entry_of_mem_visitsOfFields fields hnames hinner)
          (hbelow fields rfl bindings path _ frame hnames hinner)
      | objectArray =>
        cases group with
        | none => cases hgroup rfl
        | some group =>
          have hitem : ∀ i, (path.item i).names = names := fun i => (FieldPath.names_item path i).trans hnames
          have hinner : ∀ bound, ((group, bound) :: bindings).map (·.1) = (scope ++ [group]).reverse := by
            intro bound
            simp [hscope]
          rw [visitsOfField, entriesOfField]
          refine pairwise_before_cons hown ?_ (pairwise_boundVisits ?_ ?_ 0 (itemsOf value))
          · intro later hlater
            obtain ⟨i, item, -, hvisit⟩ := mem_boundVisits.mp hlater
            exact exists_entry_of_mem_visitsOfFields fields (hitem _) (hinner _) hvisit
          · exact fun i data => hbelow fields rfl _ _ data [] (hitem i) (hinner _)
          · -- visits of two items have the numbers of these bound
            intro i j data other hlt visit hvisit later hlater
            have hbound := (below_of_mem_visitsOfFields fields hvisit).2
            have hfurther := (below_of_mem_visitsOfFields fields hlater).2
            exact .item (Nat.add_lt_add_left hlt _) (hbound.subset List.mem_cons_self)
              (hfurther.subset List.mem_cons_self)

/-- **Visits come in the order of declarations and items**, if every array has a group. -/
theorem pairwise_visitsOfFields : ∀ (fields : List (String × Field)) {names scope : List String},
    (∀ entry ∈ entriesBelow names scope fields, entry.field.type = .objectArray →
      entry.field.group.isSome = true) →
      ∀ (bindings : Bindings) (path : FieldPath) (data : Data) (frame : Frame), path.names = names →
        bindings.map (·.1) = scope.reverse →
          (visitsOfFields groups bindings path data fields frame).Pairwise
            (Visit.Before (entriesBelow names scope fields)) := by
  refine Schema.induction_on_shapes fun fields ih => ?_
  intro names scope hgroups bindings path data frame hnames hscope
  -- the induction on depth gives what is below a field, one on the list what is beside it
  have key : ∀ rest, rest ⊆ fields → ∀ frame, (visitsOfFields groups bindings path data rest frame).Pairwise
      (Visit.Before (entriesBelow names scope rest)) := by
    intro rest
    induction rest with
    | nil => intro _ _; exact List.Pairwise.nil
    | cons head rest ihRest =>
      intro hsub frame
      obtain ⟨name, field⟩ := head
      obtain ⟨hmem, hrest⟩ := List.cons_subset.mp hsub
      have hentries : ∀ entry ∈ entriesOfField (names ++ [name]) scope field,
          entry ∈ entriesBelow names scope fields :=
        fun entry hentry => mem_entriesBelow.mpr ⟨name, field, hmem, hentry⟩
      have hname : (path.field name).names = names ++ [name] := by rw [FieldPath.names_field, hnames]
      have hfield :
          (visitsOfField groups bindings (path.field name) (data.present? name) field frame).Pairwise
            (Visit.Before (entriesOfField (names ++ [name]) scope field)) := by
        refine pairwise_visitsOfField (hgroups _ (hentries _ (self_mem_entriesOfField _ _ _))) ?_ hname hscope
        intro below hshape
        refine ih name field below hmem hshape fun entry hentry => hgroups entry (hentries entry ?_)
        exact mem_entriesOfField.mpr (.inr ⟨below, hshape, hentry⟩)
      rw [visitsOfFields, entriesBelow, List.pairwise_append]
      refine ⟨hfield.imp (before_mono (List.sublist_append_left _ _)),
        (ihRest hrest _).imp (before_mono (List.sublist_append_right _ _)), ?_⟩
      intro visit hvisit later hlater
      exact before_append (exists_entry_of_mem_visitsOfField hname hscope hvisit)
        (exists_entry_of_mem_visitsOfFields rest hnames hscope hlater)
  exact key fields (List.Subset.refl _) frame

/-- **The visits of a document come in the order of declarations and items**, if every array has a group. -/
theorem pairwise_visits {composed : ComposedSchema}
    (hgroups : ∀ entry ∈ composed.schema.entries, entry.field.type = .objectArray →
      entry.field.group.isSome = true)
    (data : Data) : (visits composed data).Pairwise (Visit.Before composed.schema.entries) :=
  pairwise_visitsOfFields composed.schema hgroups [] [] data [] rfl rfl

/-- The writes of visits are related in order, if those of each visit are and those of visits in order. -/
theorem pairwise_writesOf {related : Write → Write → Prop} {all : List Visit} {writes : List Write}
    (hwrites : writesOf all = some writes)
    (hown : ∀ visit ∈ all, ∀ own, visit.writes? = some own → own.Pairwise related)
    (hpair : all.Pairwise fun visit later => ∀ own others, visit.writes? = some own →
      later.writes? = some others →
      ∀ write ∈ own, ∀ other ∈ others, related write other) : writes.Pairwise related := by
  induction all generalizing writes with
  | nil =>
    obtain rfl : [] = writes := Option.some.inj hwrites
    exact List.Pairwise.nil
  | cons visit rest ih =>
    simp only [writesOf, bind, Option.bind_eq_some_iff, Option.some.injEq] at hwrites
    obtain ⟨own, hvisit, others, hothers, rfl⟩ := hwrites
    obtain ⟨hfirst, hrest⟩ := List.pairwise_cons.mp hpair
    rw [List.pairwise_append]
    refine ⟨hown visit List.mem_cons_self own hvisit,
      ih hothers (fun later hlater => hown later (List.mem_cons_of_mem _ hlater)) hrest, ?_⟩
    intro write hwrite other hother
    obtain ⟨later, hlater, found, hfound, hmem⟩ := (mem_writesOf hothers other).mp hother
    exact hfirst later hlater own found hvisit hfound write hwrite other hmem

end Assembly

end InvoiceXml
