import InvoiceXml.Proofs.Assembly.Offset
import InvoiceXml.Proofs.Assembly.WriteList
import Mathlib.Data.List.Pairwise

/-!
# Groups that share a family

Groups that are linked place their items in one family of elements, so no two of them should bind
one number in a scope. Each number of a group is higher than those of the groups in its chain
(`lt_of_mem_siblingChain`), and so it is where the links are a line:

* **`not_binds_both_of_forkless`**: connected groups bind different numbers, if among the groups
  that are connected to them no two follow the same one;
* `exists_binds_both_of_fork`: two groups that follow the same one bind one number wherever both
  have items, and so the element there is that of both.
-/

namespace InvoiceXml

/-! ### Forks -/

/-- Groups are known by the groups that they follow, where none is followed twice. -/
theorem eq_of_nodup_siblings {groups : List Group} (h : (groups.filterMap Group.sibling).Nodup)
    {group other : Group} (hgroup : group ∈ groups) (hother : other ∈ groups) {sibling : String}
    (hfollows : group.sibling = some sibling) (hotherFollows : other.sibling = some sibling) :
    group = other := by
  have hpairs := List.pairwise_filterMap.mp h
  have hsymm : Std.Symm fun group other : Group => ∀ first, group.sibling = some first →
      ∀ second, other.sibling = some second → first ≠ second :=
    ⟨fun _ _ h first hfirst second hsecond => (h second hsecond first hfirst).symm⟩
  by_contra hne
  exact hpairs.forall hgroup hother hne sibling hfollows sibling hotherFollows rfl

/-- There are no forks where no group is followed twice. -/
theorem GroupIndex.forkless_of_nodup {index : GroupIndex} (h : (index.groups.filterMap Group.sibling).Nodup)
    (name : String) : index.Forkless name := by
  intro first second sibling _ _ hfirst hsecond
  obtain ⟨group, hgroup, hfollows⟩ := Option.bind_eq_some_iff.mp hfirst
  obtain ⟨other, hother, hotherFollows⟩ := Option.bind_eq_some_iff.mp hsecond
  have hsame := eq_of_nodup_siblings h (List.mem_of_find?_eq_some hgroup) (List.mem_of_find?_eq_some hother)
    hfollows hotherFollows
  have hname : group.name = first := by simpa using List.find?_some hgroup
  have hotherName : other.name = second := by simpa using List.find?_some hother
  rw [← hname, ← hotherName, hsame]

namespace Assembly

section Composed

variable {schema : Schema} {composed : ComposedSchema} {data : Data} {scope : Scope} {names : List String}
  {before after : List Group} (hcompose : schema.compose = .ok composed)

include hcompose

/-- The numbers of a group are higher than those of the groups in its chain. -/
theorem Scope.Declared.lt_of_mem_siblingChain (h : scope.Declared schema names before after)
    {group other : String} (hchain : other ∈ composed.groups.siblingChain group)
    {i j number further : Nat} (hother : scope.Binds composed.groups other i number)
    (hgroup : scope.Binds composed.groups group j further) :
    number < further := by
  obtain ⟨hi, rfl⟩ := (h.binds_iff hcompose other i number).mp hother
  obtain ⟨-, rfl⟩ := (h.binds_iff hcompose group j further).mp hgroup
  obtain ⟨nearer, hsplit⟩ :=
    GroupIndex.exists_siblingChain_eq_append (Schema.registers_of_compose hcompose) group hchain
  rw [hsplit, List.map_append, List.map_cons, List.sum_append, List.sum_cons]
  omega

/-- **Connected groups bind different numbers**, if there are no forks among them. -/
theorem not_binds_both_of_forkless (hformed : Schema.WellFormed schema) (hnests : schema.NestsGroups)
    (hscope : scope.Of composed data) {group other : String} (hne : group ≠ other)
    (hconnected : composed.groups.Connected group other) (hforkless : composed.groups.Forkless group)
    (i j number : Nat) :
    ¬(scope.Binds composed.groups group i number ∧ scope.Binds composed.groups other j number) := by
  obtain ⟨names, before, after, hdeclared⟩ := hscope.exists_declared hcompose hformed hnests
  rintro ⟨hgroup, hother⟩
  rcases GroupIndex.chain_of_connected (Schema.registers_of_compose hcompose) hforkless hconnected with
    heq | hbelow | habove
  · exact hne heq
  · exact Nat.lt_irrefl _ (hdeclared.lt_of_mem_siblingChain hcompose hbelow hother hgroup)
  · exact Nat.lt_irrefl _ (hdeclared.lt_of_mem_siblingChain hcompose habove hgroup hother)

/-- **Forks share numbers.** Where two groups that follow the same one have items, both bind one number. -/
theorem exists_binds_both_of_fork (hformed : Schema.WellFormed schema) (hnests : schema.NestsGroups)
    (hscope : scope.Of composed data) {group other sibling : String}
    (hgroup : composed.groups.sibling? group = some sibling)
    (hother : composed.groups.sibling? other = some sibling) (hitems : 0 < scope.count group)
    (hotherItems : 0 < scope.count other) :
    ∃ number, scope.Binds composed.groups group 0 number ∧ scope.Binds composed.groups other 0 number := by
  obtain ⟨names, before, after, hdeclared⟩ := hscope.exists_declared hcompose hformed hnests
  have hregisters := Schema.registers_of_compose hcompose
  have hchain : composed.groups.siblingChain group = composed.groups.siblingChain other := by
    rw [GroupIndex.siblingChain_of_sibling hregisters hgroup,
      GroupIndex.siblingChain_of_sibling hregisters hother]
  refine ⟨_, (hdeclared.binds_iff hcompose group 0 _).mpr ⟨hitems, rfl⟩, ?_⟩
  exact (hdeclared.binds_iff hcompose other 0 _).mpr ⟨hotherItems, by rw [hchain]⟩

end Composed

theorem not_binds_both_of_forkless_titledNotes :
    ∃ composed, titledNotes.schema.compose = .ok composed ∧ Schema.WellFormed titledNotes.schema ∧
      titledNotes.schema.NestsGroups ∧ ∃ scope : Scope, scope.Of composed titledNotesData ∧
        "remarks" ≠ "notes" ∧ composed.groups.Connected "remarks" "notes" ∧
        composed.groups.Forkless "remarks" ∧ 0 < scope.count "remarks" ∧ 0 < scope.count "notes" ∧
          ∀ i j number, ¬(scope.Binds composed.groups "remarks" i number ∧
              scope.Binds composed.groups "notes" j number) := by
  have hformed : Schema.WellFormed titledNotes.schema := by decide +kernel
  have hnests : titledNotes.schema.NestsGroups := by decide +kernel
  have hok : titledNotes.schema.compose.toOption.any (fun composed =>
      composed.groups.sibling? "remarks" = some "notes" ∧
        (composed.groups.groups.filterMap Group.sibling).Nodup) =
        true := by decide +kernel
  cases hcompose : titledNotes.schema.compose with
  | error error =>
    rw [hcompose] at hok
    cases hok
  | ok composed =>
    rw [hcompose] at hok
    obtain ⟨hsibling, hdistinct⟩ := of_decide_eq_true hok
    have hconnected : composed.groups.Connected "remarks" "notes" := .single (.inl hsibling)
    have hforkless := GroupIndex.forkless_of_nodup hdistinct "remarks"
    have hne : "remarks" ≠ "notes" := by decide
    have hcount : ∀ group, Scope.count ⟨[], [], titledNotesData, composed.schema⟩ group =
        countOf (itemCounts titledNotesData titledNotes.schema) group := fun group => by
      rw [Scope.count, Schema.schema_of_compose hcompose]
    refine ⟨composed, rfl, hformed, hnests, _, .document, hne, hconnected, hforkless, ?_, ?_,
      not_binds_both_of_forkless hcompose hformed hnests .document hne hconnected hforkless⟩
    all_goals
      rw [hcount]
      decide

/-- Notes, and two groups of others that both follow them. -/
def forkedNotes : Schema := [
  ("a", (Field.ofArray [("v", (Field.ofChoice ["0"]).placedAt "/r/i[a]/v")]).inGroup "a"),
  ("b", ((Field.ofArray [("v", (Field.ofChoice ["1"]).placedAt "/r/i[b]/v")]).inGroup "b").after "a"),
  ("c", ((Field.ofArray [("v", (Field.ofChoice ["2"]).placedAt "/r/i[c]/v")]).inGroup "c").after "a")]

/-- A note of each of the groups that follow. -/
def forkedNotesData : Data :=
  .obj [("a", .arr []), ("b", .arr [.obj [("v", .str "1")]]), ("c", .arr [.obj [("v", .str "2")]])]

/-- Both notes are bound to one number, and so the document has one of them. -/
theorem exists_binds_both_forkedNotes :
    ∃ composed, forkedNotes.compose = .ok composed ∧ Schema.WellFormed forkedNotes ∧ forkedNotes.NestsGroups ∧
      (∃ scope : Scope, scope.Of composed forkedNotesData ∧ "b" ≠ "c" ∧ composed.groups.Connected "b" "c" ∧
        ∃ i j number, scope.Binds composed.groups "b" i number ∧ scope.Binds composed.groups "c" j number) ∧
        ∃ document, assemble composed {} forkedNotesData = .ok document ∧
          (document.root.named "i").length = 1 := by
  have hformed : Schema.WellFormed forkedNotes := by decide +kernel
  have hnests : forkedNotes.NestsGroups := by decide +kernel
  have hok : forkedNotes.compose.toOption.any (fun composed =>
      composed.groups.sibling? "b" = some "a" ∧ composed.groups.sibling? "c" = some "a" ∧
        (assemble composed {} forkedNotesData).toOption.any fun document =>
          (document.root.named "i").length = 1) =
          true := by decide +kernel
  cases hcompose : forkedNotes.compose with
  | error error =>
    rw [hcompose] at hok
    cases hok
  | ok composed =>
    rw [hcompose] at hok
    obtain ⟨hfirst, hsecond, hdocument⟩ := of_decide_eq_true hok
    have hconnected : composed.groups.Connected "b" "c" := .tail (.single (.inl hfirst)) (.inr hsecond)
    have hschema := Schema.schema_of_compose hcompose
    refine ⟨composed, rfl, hformed, hnests, ⟨_, .document, by decide, hconnected, 0, 0, ?_⟩, ?_⟩
    · refine exists_binds_both_of_fork hcompose hformed hnests .document hfirst hsecond ?_ ?_
      all_goals
        rw [Scope.count, hschema]
        decide
    · cases hassemble : assemble composed {} forkedNotesData with
      | error error =>
        rw [hassemble] at hdocument
        cases hdocument
      | ok document =>
        rw [hassemble] at hdocument
        exact ⟨document, rfl, of_decide_eq_true hdocument⟩

end Assembly

end InvoiceXml
