import InvoiceXml.Proofs.Schema.Merge
import InvoiceXml.Standard.Level
import Mathlib.Data.List.DropRight
import Mathlib.Data.List.Flatten

/-!
# The order of names

What may be said of a list of names can be said of the names that a schema declares at every depth
(`Schema.NamesHold`).

The names of a merged schema can be read off the names of both sides. In front of a name of both
sides stands the longest run of new names that ends right before it in the layer (`runBefore`), and
behind all others stand the new names behind the last one that the layer shares with the schema
(`trailing`); so the layer is woven into the schema (`woven`).

* `names_place`: a new field is put right before the first name that follows it in the layer and is
  there;
* `names_mergeFields`: from that, by induction on the layer, where all of its names come to stand;
* `sublist_woven`: if both sides have their shared names in one order, the layer keeps the order of
  all its names;
* **`names_merge_along`**: so it is at every depth, along names under which both sides declare
  objects or arrays.
-/

namespace InvoiceXml

/-! ### Names at every depth -/

section NamesHold

variable (holds : List String → Prop)

mutual

/-- What holds of lists of names holds of the names in the shape of a field, and of all below them. -/
def Field.NamesHoldBelow : Field → Prop
  | { shape := none, .. } => True
  | { shape := some fields, .. } => holds (fields.map (·.1)) ∧ Schema.NamesHoldBelow fields

def Schema.NamesHoldBelow : List (String × Field) → Prop
  | [] => True
  | (_, field) :: rest => Field.NamesHoldBelow field ∧ Schema.NamesHoldBelow rest

end

/-- What holds of lists of names holds of the names that are declared at every depth. -/
def Schema.NamesHold (fields : List (String × Field)) : Prop :=
  holds (fields.map (·.1)) ∧ Schema.NamesHoldBelow holds fields

mutual

instance Field.decidableNamesHoldBelow [DecidablePred holds] :
    (field : Field) → Decidable (field.NamesHoldBelow holds)
  | { shape := none, .. } => isTrue trivial
  | { shape := some fields, .. } =>
    have := Schema.decidableNamesHoldBelow fields
    inferInstanceAs (Decidable (holds (fields.map (·.1)) ∧ Schema.NamesHoldBelow holds fields))

instance Schema.decidableNamesHoldBelow [DecidablePred holds] :
    (fields : List (String × Field)) → Decidable (Schema.NamesHoldBelow holds fields)
  | [] => isTrue trivial
  | (_, field) :: rest =>
    have := Field.decidableNamesHoldBelow field
    have := Schema.decidableNamesHoldBelow rest
    inferInstanceAs (Decidable (field.NamesHoldBelow holds ∧ Schema.NamesHoldBelow holds rest))

end

instance [DecidablePred holds] (fields : List (String × Field)) : Decidable (Schema.NamesHold holds fields) :=
  inferInstanceAs (Decidable (holds (fields.map (·.1)) ∧ Schema.NamesHoldBelow holds fields))

end NamesHold

namespace Schema

variable {holds : List String → Prop} {fields below : List (String × Field)} {name : String} {field : Field}

theorem namesHold_of_namesHoldBelow (h : NamesHoldBelow holds fields) (hmem : (name, field) ∈ fields)
    (hshape : field.shape = some below) : NamesHold holds below := by
  induction fields with
  | nil => cases hmem
  | cons head rest ih =>
    obtain ⟨other, found⟩ := head
    obtain ⟨hfound, hrest⟩ := h
    rcases List.mem_cons.mp hmem with heq | hmem
    · obtain ⟨rfl, rfl⟩ := Prod.mk.inj heq
      cases field
      obtain rfl := hshape
      exact hfound
    · exact ih hrest hmem

theorem NamesHold.of_mem (h : NamesHold holds fields) (hmem : (name, field) ∈ fields)
    (hshape : field.shape = some below) : NamesHold holds below :=
  namesHold_of_namesHoldBelow h.2 hmem hshape

theorem NamesHold.of_find? (h : NamesHold holds fields) (hfind : find? name fields = some field)
    (hshape : field.shape = some below) : NamesHold holds below :=
  h.of_mem (mem_of_find?_eq_some hfind) hshape

/-! ### Weaving names into others -/

/-- The longest run of new names that stands right before a name of the layer. -/
def runBefore (old : List String) (name : String) (layer : List String) : List String :=
  (layer.takeWhile (· ≠ name)).rtakeWhile (· ∉ old)

/-- The new names of the layer behind all that are not new. -/
def trailing (old layer : List String) : List String := layer.rtakeWhile (· ∉ old)

/-- An old name, behind the run of new ones before it if the layer declares it. -/
def segment (old layer : List String) (name : String) : List String :=
  (if name ∈ layer then runBefore old name layer else []) ++ [name]

/-- The names of the layer among the old ones: each run of new names before the name that it
precedes, and the rest at the end. -/
def woven (old layer : List String) : List String := old.flatMap (segment old layer) ++ trailing old layer

section Runs

variable {old known layer rest skipped further before after : List String} {name first anchor : String}

theorem rtakeWhile_cons_of_exists {p : String → Bool} (h : ∃ name ∈ rest, p name = false) (first : String) :
    (first :: rest).rtakeWhile p = rest.rtakeWhile p := by
  have hnot : (rest.reverse.takeWhile p).length ≠ rest.reverse.length := by
    intro hlength
    obtain ⟨name, hname, hold⟩ := h
    have hall := List.takeWhile_eq_self_iff.mp ((List.takeWhile_prefix p).eq_of_length hlength)
    rw [hall name (List.mem_reverse.mpr hname)] at hold
    cases hold
  rw [List.rtakeWhile, List.rtakeWhile, List.reverse_cons, List.takeWhile_append, if_neg hnot]

theorem rtakeWhile_cons_of_neg {p : String → Bool} (hfirst : p first = false) (rest : List String) :
    (first :: rest).rtakeWhile p = rest.rtakeWhile p := by
  by_cases h : ∃ name ∈ rest, p name = false
  · exact rtakeWhile_cons_of_exists h first
  · have hall : ∀ name ∈ rest, p name = true := by simpa using h
    rw [List.rtakeWhile_eq_self_iff.mpr hall, List.rtakeWhile, List.reverse_cons,
      List.takeWhile_append_of_pos (by simpa using hall), List.takeWhile_cons_of_neg (by simp [hfirst]),
      List.append_nil, List.reverse_reverse]

theorem takeWhile_congr {p q : String → Bool} (h : ∀ name ∈ rest, p name = q name) :
    rest.takeWhile p = rest.takeWhile q := by
  induction rest with
  | nil => rfl
  | cons first rest ih =>
    rw [List.forall_mem_cons] at h
    rw [List.takeWhile_cons, List.takeWhile_cons, h.1, ih h.2]

theorem rtakeWhile_congr {p q : String → Bool} (h : ∀ name ∈ rest, p name = q name) :
    rest.rtakeWhile p = rest.rtakeWhile q := by
  rw [List.rtakeWhile, List.rtakeWhile, takeWhile_congr fun name hname => h name (List.mem_reverse.mp hname)]

theorem trailing_congr (h : ∀ other ∈ layer, other ∈ old ↔ other ∈ known) :
    trailing old layer = trailing known layer :=
  rtakeWhile_congr fun other hother => by simp [h other hother]

theorem trailing_of_new (h : ∀ other ∈ layer, other ∉ old) : trailing old layer = layer :=
  List.rtakeWhile_eq_self_iff.mpr fun other hother => decide_eq_true (h other hother)

/-! ### The run before a name -/

theorem takeWhile_cons_ne (hne : first ≠ name) (rest : List String) :
    (first :: rest).takeWhile (· ≠ name) = first :: rest.takeWhile (· ≠ name) :=
  List.takeWhile_cons_of_pos (decide_eq_true hne)

theorem takeWhile_append_ne (hskipped : name ∉ skipped) (further : List String) :
    (skipped ++ further).takeWhile (· ≠ name) = skipped ++ further.takeWhile (· ≠ name) :=
  List.takeWhile_append_of_pos fun _ hother => decide_eq_true fun heq => hskipped (heq ▸ hother)

theorem runBefore_self (old : List String) (first : String) (rest : List String) :
    runBefore old first (first :: rest) = [] := by
  rw [runBefore, List.takeWhile_cons_of_neg (by simp), List.rtakeWhile_nil]

theorem runBefore_congr (h : ∀ other ∈ layer, other ∈ old ↔ other ∈ known) (name : String) :
    runBefore old name layer = runBefore known name layer :=
  rtakeWhile_congr fun other hother => by simp [h other (List.takeWhile_subset _ hother)]

/-- A name that is not new is in no run. -/
theorem runBefore_cons_of_mem (hne : first ≠ name) (hmem : first ∈ old) (rest : List String) :
    runBefore old name (first :: rest) = runBefore old name rest := by
  rw [runBefore, takeWhile_cons_ne hne, rtakeWhile_cons_of_neg (by simpa using hmem), runBefore]

/-- A name before one that is not new is in no run behind that one. -/
theorem runBefore_cons_of_anchor (hne : first ≠ name) (hanchor : anchor ∈ old) (hother : anchor ≠ name)
    (hskipped : name ∉ skipped) (further : List String) :
    runBefore old name (first :: (skipped ++ anchor :: further)) =
      runBefore old name (skipped ++ anchor :: further) := by
  have hmet : anchor ∈ (skipped ++ anchor :: further).takeWhile (· ≠ name) := by
    rw [takeWhile_append_ne hskipped, takeWhile_cons_ne hother]
    simp
  rw [runBefore, takeWhile_cons_ne hne,
    rtakeWhile_cons_of_exists ⟨anchor, hmet, by simpa using hanchor⟩, runBefore]

/-- A new name is in the run of the first name behind it that is not new. -/
theorem runBefore_cons_of_new (hnew : first ∉ old) (hskipped : ∀ other ∈ skipped, other ∉ old)
    (hanchor : anchor ∈ old) (further : List String) :
    runBefore old anchor (first :: (skipped ++ anchor :: further)) =
      first :: runBefore old anchor (skipped ++ anchor :: further) := by
  have hrun : (skipped ++ anchor :: further).takeWhile (· ≠ anchor) = skipped := by
    rw [takeWhile_append_ne fun hmem => hskipped anchor hmem hanchor, List.takeWhile_cons_of_neg (by simp),
      List.append_nil]
  have hall : ∀ other ∈ first :: skipped, other ∉ old := List.forall_mem_cons.mpr ⟨hnew, hskipped⟩
  have hne : first ≠ anchor := fun heq => hnew (heq ▸ hanchor)
  rw [runBefore, takeWhile_cons_ne hne, runBefore, hrun]
  exact (trailing_of_new hall).trans (congrArg _ (trailing_of_new hskipped).symm)

/-! ### What stands for an old name -/

theorem segment_of_notMem (h : name ∉ layer) (old : List String) : segment old layer name = [name] := by
  rw [segment, if_neg h, List.nil_append]

theorem segment_congr (h : ∀ other ∈ layer, other ∈ old ↔ other ∈ known) (name : String) :
    segment old layer name = segment known layer name := by
  rw [segment, segment, runBefore_congr h]

theorem segment_cons_of_ne (hne : first ≠ name)
    (hrun : runBefore old name (first :: rest) = runBefore old name rest) :
    segment old (first :: rest) name = segment old rest name := by
  simp only [segment, List.mem_cons, Ne.symm hne, false_or, hrun]

/-! ### One more name -/

/-- A name of both sides adds nothing. -/
theorem woven_cons_of_mem (hmem : first ∈ old) (hnew : first ∉ rest) :
    woven old (first :: rest) = woven old rest := by
  have htrailing : trailing old (first :: rest) = trailing old rest :=
    rtakeWhile_cons_of_neg (by simpa using hmem) rest
  rw [woven, woven, htrailing]
  refine congrArg (· ++ _) (List.flatMap_congr fun name _ => ?_)
  by_cases hname : first = name
  · subst hname
    rw [segment_of_notMem hnew, segment, runBefore_self, ite_self, List.nil_append]
  · exact segment_cons_of_ne hname (runBefore_cons_of_mem hname hmem rest)

/-- A new name stands right before the first name that follows it and is not new. -/
theorem woven_cons_of_anchor (hold : old = before ++ anchor :: after) (hdistinct : old.Nodup)
    (hrest : rest = skipped ++ anchor :: further) (hskipped : ∀ other ∈ skipped, other ∉ old)
    (hnew : first ∉ old) (hfirst : first ∉ rest) :
    woven old (first :: rest) = woven (before ++ first :: anchor :: after) rest := by
  have hanchor : anchor ∈ old := by simp [hold]
  have hmem : anchor ∈ rest := by simp [hrest]
  have hagree : ∀ other ∈ rest, other ∈ before ++ first :: anchor :: after ↔ other ∈ old := by
    intro other hother
    have hne : other ≠ first := fun heq => hfirst (heq ▸ hother)
    simp [hold, hne]
  have hothers : ∀ name ∈ old, name ≠ anchor → segment old (first :: rest) name = segment old rest name := by
    intro name hname hne
    have hfirstName : first ≠ name := fun heq => hnew (heq ▸ hname)
    refine segment_cons_of_ne hfirstName ?_
    rw [hrest]
    exact runBefore_cons_of_anchor hfirstName hanchor hne.symm (fun hmem => hskipped name hmem hname) further
  have hat : segment old (first :: rest) anchor = first :: segment old rest anchor := by
    rw [segment, segment, if_pos (List.mem_cons_of_mem _ hmem), if_pos hmem, hrest,
      runBefore_cons_of_new hnew hskipped hanchor, List.cons_append]
  have htrailing : trailing old (first :: rest) = trailing old rest :=
    rtakeWhile_cons_of_exists ⟨anchor, hmem, by simpa using hanchor⟩ first
  have hapart : anchor ∉ before ∧ anchor ∉ after := by
    rw [hold, List.nodup_append, List.nodup_cons] at hdistinct
    exact ⟨fun hmem => hdistinct.2.2 anchor hmem anchor List.mem_cons_self rfl, hdistinct.2.1.1⟩
  have hbefore : before.flatMap (segment old (first :: rest)) = before.flatMap (segment old rest) :=
    List.flatMap_congr fun name hname => hothers name (by simp [hold, hname]) fun heq =>
      hapart.1 (heq ▸ hname)
  have hafter : after.flatMap (segment old (first :: rest)) = after.flatMap (segment old rest) :=
    List.flatMap_congr fun name hname => hothers name (by simp [hold, hname]) fun heq =>
      hapart.2 (heq ▸ hname)
  calc woven old (first :: rest)
      = before.flatMap (segment old rest) ++ first :: (segment old rest anchor ++
          after.flatMap (segment old rest)) ++ trailing old rest := by
        rw [woven, htrailing]
        conv_lhs => rw [hold]
        rw [List.flatMap_append, List.flatMap_cons, ← hold, hbefore, hafter, hat, List.cons_append]
    _ = woven (before ++ first :: anchor :: after) rest := by
        rw [woven, trailing_congr hagree, List.flatMap_congr fun name _ => segment_congr hagree name,
          List.flatMap_append, List.flatMap_cons, List.flatMap_cons, segment_of_notMem hfirst,
          List.singleton_append]

/-- A new name that no old one follows stands behind all of them. -/
theorem woven_cons_of_none (hrest : ∀ other ∈ rest, other ∉ old) (hnew : first ∉ old)
    (hfirst : first ∉ rest) :
    woven old (first :: rest) = woven (old ++ [first]) rest := by
  have hall : ∀ other ∈ first :: rest, other ∉ old := List.forall_mem_cons.mpr ⟨hnew, hrest⟩
  have hlater : ∀ other ∈ rest, other ∉ old ++ [first] := by
    intro other hother hmem
    rcases List.mem_append.mp hmem with hmem | hmem
    · exact hrest other hother hmem
    · exact hfirst (List.mem_singleton.mp hmem ▸ hother)
  have hsegment : ∀ {names layer known : List String}, (∀ other ∈ layer, other ∉ names) →
      names.flatMap (segment known layer) = names := by
    intro names layer known h
    rw [List.flatMap_congr fun name hname => segment_of_notMem (fun hmem => h name hmem hname) known,
      List.flatMap_singleton']
  rw [woven, woven, hsegment hall, hsegment hlater, trailing_of_new hall, trailing_of_new hlater,
    List.append_assoc, List.singleton_append]

/-! ### The order of the layer -/

/-- A layer is cut by its old names into their runs and the rest. -/
theorem flatMap_runBefore (hdistinct : layer.Nodup) :
    ((layer.filter (· ∈ old)).flatMap fun name => runBefore old name layer ++ [name]) ++ trailing old layer =
      layer := by
  induction layer with
  | nil => rfl
  | cons first rest ih =>
    obtain ⟨hfirst, hrest⟩ := List.nodup_cons.mp hdistinct
    have hne : ∀ name ∈ rest.filter (· ∈ old), first ≠ name := fun name hname heq =>
      hfirst (heq ▸ (List.mem_filter.mp hname).1)
    by_cases hmem : first ∈ old
    · have hruns := List.flatMap_congr fun name (hname : name ∈ rest.filter (· ∈ old)) =>
        congrArg (· ++ [name]) (runBefore_cons_of_mem (hne name hname) hmem rest)
      have htrailing : trailing old (first :: rest) = trailing old rest :=
        rtakeWhile_cons_of_neg (by simpa using hmem) rest
      rw [List.filter_cons_of_pos (by simpa using hmem), List.flatMap_cons, runBefore_self, hruns, htrailing,
        List.append_assoc, ih hrest]
      rfl
    · rw [List.filter_cons_of_neg (by simpa using hmem)]
      cases hshared : rest.filter (· ∈ old) with
      | nil =>
        have hall : ∀ other ∈ first :: rest, other ∉ old :=
          List.forall_mem_cons.mpr ⟨hmem, by simpa using List.filter_eq_nil_iff.mp hshared⟩
        rw [trailing_of_new hall]
        rfl
      | cons anchor others =>
        -- the run before the first old name grows, the others lie behind it
        obtain ⟨skipped, further, rfl, hskipped, hanchor, hfurther⟩ := List.filter_eq_cons_iff.mp hshared
        have hskipped : ∀ other ∈ skipped, other ∉ old := by simpa using hskipped
        have hanchor : anchor ∈ old := by simpa using hanchor
        have htrailing : trailing old (first :: (skipped ++ anchor :: further)) =
            trailing old (skipped ++ anchor :: further) :=
          rtakeWhile_cons_of_exists ⟨anchor, by simp, by simpa using hanchor⟩ first
        have hruns : ∀ name ∈ others, runBefore old name (first :: (skipped ++ anchor :: further)) ++ [name] =
            runBefore old name (skipped ++ anchor :: further) ++ [name] := by
          intro name hname
          have hshares : name ∈ (skipped ++ anchor :: further).filter (· ∈ old) := by
            rw [hshared]
            exact List.mem_cons_of_mem _ hname
          obtain ⟨hlater, hold⟩ := List.mem_filter.mp (hfurther ▸ hname)
          have hapart : anchor ≠ name := fun heq =>
            (List.nodup_cons.mp (List.nodup_append.mp hrest).2.1).1 (heq ▸ hlater)
          rw [runBefore_cons_of_anchor (hne name hshares) hanchor hapart
            (fun hmem => hskipped name hmem (by simpa using hold))]
        have ih := ih hrest
        rw [hshared, List.flatMap_cons] at ih
        rw [List.flatMap_cons, runBefore_cons_of_new hmem hskipped hanchor,
          List.flatMap_congr hruns, htrailing, List.cons_append, List.cons_append, List.cons_append,
          ih]

/-- **A layer keeps its order**, if both sides have their shared names in one. -/
theorem sublist_woven (hdistinct : layer.Nodup) (horder : old.filter (· ∈ layer) = layer.filter (· ∈ old)) :
    layer.Sublist (woven old layer) := by
  have hcut : (layer.filter (· ∈ old)).flatMap (fun name => runBefore old name layer ++ [name]) ++
    trailing old layer =
      layer := flatMap_runBefore hdistinct
  have hsegments : (layer.filter (· ∈ old)).flatMap (fun name => runBefore old name layer ++ [name]) =
      (old.filter (· ∈ layer)).flatMap (segment old layer) := by
    rw [horder]
    refine List.flatMap_congr fun name hname => ?_
    rw [segment, if_pos (List.mem_filter.mp hname).1]
  have hshared : (old.filter (· ∈ layer)).Sublist old := List.filter_sublist
  have hsublist := (hshared.flatMap (segment old layer)).append_right (trailing old layer)
  rw [hsegments] at hcut
  rwa [hcut] at hsublist

end Runs

/-! ### Merging -/

theorem insertIdx_length_append {α : Type} (before after : List α) (new : α) :
    (before ++ after).insertIdx before.length new = before ++ new :: after := by
  induction before with
  | nil => rfl
  | cons first before ih => simp [ih]

/-- A new field is put right before the first name that follows it and is there, or else at the end. -/
theorem names_place (name : String) (field : Field) (following : List String) (schema : Schema) :
    ((∀ other ∈ following, other ∉ schema.map (·.1)) ∧
        (schema.place name field following).map (·.1) = schema.map (·.1) ++ [name]) ∨
      ∃ skipped anchor further before after, following = skipped ++ anchor :: further ∧
        (∀ other ∈ skipped, other ∉ schema.map (·.1)) ∧ schema.map (·.1) = before ++ anchor :: after ∧
        (schema.place name field following).map (·.1) = before ++ name :: anchor :: after := by
  have hnone : ∀ other, schema.position? other = none → other ∉ schema.map (·.1) := by
    intro other hother hmem
    obtain ⟨entry, hentry, rfl⟩ := List.mem_map.mp hmem
    have hne := List.findIdx?_eq_none_iff.mp hother entry hentry
    simp at hne
  rw [place]
  cases hanchor : schema.anchor? following with
  | none =>
    refine .inl ⟨fun other hother => hnone other (List.findSome?_eq_none_iff.mp hanchor other hother), ?_⟩
    simp
  | some i =>
    obtain ⟨skipped, anchor, further, hfollowing, hplace, hskipped⟩ := List.findSome?_eq_some_iff.mp hanchor
    obtain ⟨hlt, hfound, -⟩ := List.findIdx?_eq_some_iff_getElem.mp hplace
    have hsplit : schema.map (·.1) = (schema.take i).map (·.1) ++ anchor ::
        (schema.drop (i + 1)).map (·.1) := by
      conv_lhs => rw [← List.take_append_drop i schema, List.drop_eq_getElem_cons hlt]
      rw [List.map_append, List.map_cons, of_decide_eq_true hfound]
    refine .inr ⟨skipped, anchor, further, _, _, hfollowing, fun other hother =>
      hnone other (hskipped other hother), hsplit, ?_⟩
    have hinsert :=
      insertIdx_length_append ((schema.take i).map (·.1)) (anchor :: (schema.drop (i + 1)).map (·.1)) name
    have hlength : ((schema.take i).map (·.1)).length = i := by simp [Nat.le_of_lt hlt]
    rw [← hsplit, hlength] at hinsert
    show (schema.insertIdx i (name, field)).map (·.1) = _
    rw [List.map_insertIdx, hinsert]

/-- **The names of a merged schema** are those of the layer woven into those of the schema. -/
theorem names_mergeFields {base : Schema} (layer : List (String × Field)) (hbase : (base.map (·.1)).Nodup)
    (hlayer : (layer.map (·.1)).Nodup) :
    (mergeFields base layer).map (·.1) = woven (base.map (·.1)) (layer.map (·.1)) := by
  induction layer generalizing base with
  | nil =>
    have hnone : ∀ name ∈ base.map (·.1), segment (base.map (·.1)) [] name = [name] := fun name _ =>
      segment_of_notMem List.not_mem_nil _
    rw [mergeFields, List.map_nil, woven, List.flatMap_congr hnone, List.flatMap_singleton']
    exact (List.append_nil _).symm
  | cons head rest ih =>
    obtain ⟨name, field⟩ := head
    obtain ⟨hfirst, hrest⟩ := List.nodup_cons.mp hlayer
    rw [mergeFields, List.map_cons]
    split
    · rename_i old hold
      have hmem : name ∈ base.map (·.1) := List.mem_map_of_mem (f := (·.1)) (mem_of_find?_eq_some hold)
      rw [woven_cons_of_mem hmem hfirst, ← names_insert_of_find? hold (mergeField old field)]
      exact ih (by rwa [names_insert_of_find? hold]) hrest
    · rename_i hnone
      have hnew := find?_eq_none_iff.mp hnone
      have hplaced : ((base.place name field (rest.map (·.1))).map (·.1)).Nodup := by
        rw [((place_perm name field _ base).map _).nodup_iff, List.map_cons, List.nodup_cons]
        exact ⟨hnew, hbase⟩
      rw [ih hplaced hrest]
      rcases names_place name field (rest.map (·.1)) base with
        ⟨hlater, hnames⟩ | ⟨skipped, anchor, further, before, after, hfollowing, hskipped, hsplit, hnames⟩
      · rw [hnames, woven_cons_of_none hlater hnew hfirst]
      · rw [hnames, woven_cons_of_anchor hsplit hbase hfollowing hskipped hnew hfirst]

/-! ### At every depth -/

/-- The shape at the end of a way of names that are declared as objects or arrays; the way without
names ends at the schema itself. -/
def objectsAlong? : List String → Schema → Option Schema
  | [], schema => some schema
  | name :: way, schema =>
    (((schema.find? name).filter (·.type.isObjectLike)).bind Field.shape).bind (objectsAlong? way)

theorem objectsAlong?_cons_eq_some_iff {schema below : Schema} {way : List String} :
    schema.objectsAlong? (name :: way) = some below ↔
      ∃ field fields, schema.find? name = some field ∧ field.type.isObjectLike = true ∧
        field.shape = some fields ∧ objectsAlong? way fields = some below := by
  simp only [objectsAlong?, Option.bind_eq_some_iff, Option.filter_eq_some_iff]
  constructor
  · rintro ⟨fields, ⟨field, ⟨hfind, hkind⟩, hshape⟩, hbelow⟩
    exact ⟨field, fields, hfind, hkind, hshape, hbelow⟩
  · rintro ⟨field, fields, hfind, hkind, hshape, hbelow⟩
    exact ⟨fields, ⟨field, ⟨hfind, hkind⟩, hshape⟩, hbelow⟩

/-- An object or array of both sides has the merged shape. -/
theorem shape_mergeField_of_shapes {base layer : Field} {below above : Schema}
    (hbase : base.shape = some below) (hlayer : layer.shape = some above)
    (hbaseKind : base.type.isObjectLike = true) (hlayerKind : layer.type.isObjectLike = true) :
    (mergeField base layer).shape = some (below.merge above) := by
  have hbaseFits : HasFittingShape base := by rw [HasFittingShape, hbaseKind, hbase]; rfl
  have hlayerFits : HasFittingShape layer := by rw [HasFittingShape, hlayerKind, hlayer]; rfl
  rw [shape_mergeField hbaseFits hlayerFits, if_pos hlayerKind, hbase, hlayer]
  rfl

/-- The shapes of both sides at the end of a way are merged there. -/
theorem objectsAlong?_merge {base layer below above : Schema} (hlayer : NamesHold List.Nodup layer)
    (way : List String) (hbelow : base.objectsAlong? way = some below)
    (habove : layer.objectsAlong? way = some above) :
    (base.merge layer).objectsAlong? way = some (below.merge above) := by
  induction way generalizing base layer with
  | nil =>
    obtain rfl := Option.some.inj hbelow
    obtain rfl := Option.some.inj habove
    rfl
  | cons name way ih =>
    obtain ⟨old, oldFields, hold, holdKind, holdShape, hbelow⟩ := objectsAlong?_cons_eq_some_iff.mp hbelow
    obtain ⟨field, fields, hfield, hfieldKind, hfieldShape, habove⟩ :=
      objectsAlong?_cons_eq_some_iff.mp habove
    have hfind : find? name (base.merge layer) = some (mergeField old field) := by
      rw [find?_merge name base hlayer.1, hold, hfield]
      rfl
    have hkind : (mergeField old field).type.isObjectLike = true := by
      rw [(mergeField_attributes old field).1, hfieldKind]
    exact objectsAlong?_cons_eq_some_iff.mpr ⟨_, _, hfind, hkind,
      shape_mergeField_of_shapes holdShape hfieldShape holdKind hfieldKind,
      ih (hlayer.of_find? hfield hfieldShape) hbelow habove⟩

/-- What holds of the names at every depth holds at the end of a way. -/
theorem NamesHold.along {schema below : Schema} (h : NamesHold holds schema) (way : List String)
    (hbelow : schema.objectsAlong? way = some below) : NamesHold holds below := by
  induction way generalizing schema with
  | nil => exact Option.some.inj hbelow ▸ h
  | cons name way ih =>
    obtain ⟨field, fields, hfind, -, hshape, hbelow⟩ := objectsAlong?_cons_eq_some_iff.mp hbelow
    exact ih (h.of_find? hfind hshape) hbelow

/-- **A layer is woven into the schema at every depth.** Along names that both sides declare as
objects or arrays, the merged shape declares the names of the one and, before each that the other
shares, the run of new names that precedes it there; the other new names come last. So no name comes
twice, those of the schema keep their order, and those of the layer keep theirs if both have the
shared ones in one order. -/
theorem names_merge_along {base layer below above : Schema} (hbase : NamesHold List.Nodup base)
    (hlayer : NamesHold List.Nodup layer) (way : List String) (hbelow : base.objectsAlong? way = some below)
    (habove : layer.objectsAlong? way = some above) :
    ∃ merged, (base.merge layer).objectsAlong? way = some merged ∧
      merged.names = woven below.names above.names ∧
      merged.names.Nodup ∧ below.names.Sublist merged.names ∧
      (below.names.filter (· ∈ above.names) = above.names.filter (· ∈ below.names) →
        above.names.Sublist merged.names) := by
  have hbelowDistinct := (hbase.along way hbelow).1
  have haboveDistinct := (hlayer.along way habove).1
  have hnames : (below.merge above).names = woven below.names above.names :=
    names_mergeFields above hbelowDistinct haboveDistinct
  refine ⟨below.merge above, objectsAlong?_merge hlayer way hbelow habove, hnames,
    nodup_names_merge above hbelowDistinct, names_sublist_merge below above, fun horder => ?_⟩
  rw [hnames]
  exact sublist_woven haboveDistinct horder

/-- The totals of an invoice without lines: a run of three names before the first that is shared,
one name before the last, and two that only the lower level declares. -/
theorem names_merge_along_totals :
    let base := Level.minimum.ownSchema
    let layer := Level.basicWithoutLines.ownSchema
    let below := Standard.Settlement.minimumTotals
    let above := Standard.Settlement.basicTotals
    let expected :=
      ["lineTotal", "chargeTotal", "allowanceTotal", "taxBasisTotal", "taxTotal",
        "taxTotalCurrency", "grandTotal", "prepaidAmount", "duePayable"]
    NamesHold List.Nodup base ∧ NamesHold List.Nodup layer ∧
      base.objectsAlong? ["settlement", "totals"] = some below ∧
      layer.objectsAlong? ["settlement", "totals"] = some above ∧ woven below.names above.names = expected ∧
      ∃ merged, (base.merge layer).objectsAlong? ["settlement", "totals"] = some merged ∧
        merged.names = expected ∧
        below.names.Sublist expected ∧ above.names.Sublist expected := by
  intro base layer below above expected
  have hbase : NamesHold List.Nodup base := by decide +kernel
  have hlayer : NamesHold List.Nodup layer := by decide +kernel
  have hwoven : woven below.names above.names = expected := by decide +kernel
  have horder : below.names.filter (· ∈ above.names) = above.names.filter (· ∈ below.names) := by
    decide +kernel
  have hbelow : base.objectsAlong? ["settlement", "totals"] = some below := rfl
  have habove : layer.objectsAlong? ["settlement", "totals"] = some above := rfl
  obtain ⟨merged, hmerged, hnames, -, hkept, hlayerKept⟩ := names_merge_along hbase hlayer _ hbelow habove
  rw [hwoven] at hnames
  exact ⟨hbase, hlayer, hbelow, habove, hwoven, merged, hmerged, hnames, hnames ▸ hkept,
    hnames ▸ hlayerKept horder⟩

end Schema

end InvoiceXml
