import InvoiceXml.Proofs.Definition.Attribute
import InvoiceXml.Proofs.Validation

/-!
# Trees of definitions

Definitions hold others in their shapes. A way of names leads through the shapes to a definition
(`FieldDefinition.at?`), as it does to a field in the schema that is read (`Schema.along?`).
Definitions are read in order, and each with all in its shape before the next.

* `everywhere_iff`: a property of all definitions, stated for those of one shape at a time;
* `exists_readFields_iff`: fields are read exactly from definitions that are all well-formed;
* `rel_along?`: each way leads to a field of the schema if it leads to a definition, and the field
  is what it says;
* `readFields_eq_error`: the error is a fault of the form, or tells a definition that names an
  unknown validator, and all that is read before it is well-formed;
* **`readFields_trees`**: which definitions are read, what is read from them, and what the error is
  otherwise.
-/

namespace InvoiceXml

namespace FieldDefinition

/-- The definition at the end of a way of names through the shapes. -/
def at? : List String → List (String × Data) → Option Data
  | [], _ => none
  | [name], fields => Data.member? name fields
  | name :: rest, fields => ((Data.member? name fields).bind shapeOf?).bind (at? rest)

/-- Whether all definitions have a property, those in shapes too. -/
def Everywhere (P : Data → Prop) (fields : List (String × Data)) : Prop :=
  ∀ way data, at? way fields = some data → P data

/-- Whether a definition is an object, and a well-formed one. -/
def WellFormed (validators : Validators) (data : Data) : Prop :=
  ∃ members, data = .obj members ∧ IsWellFormed validators members

/-- Whether a definition names a validator that is not registered. -/
def NamesUnknown (validators : Validators) (data : Data) (name : String) : Prop :=
  ∃ members, data = .obj members ∧ Attribute.type.given? members = some (.str name) ∧ name ≠ "object" ∧
    name ≠ "object[]" ∧ validators.find? name = none

/-- The definitions that stand before the one at the end of a way, or before one on the way. -/
def before : List String → List (String × Data) → List (String × Data)
  | [], _ => []
  | name :: rest, fields =>
    fields.takeWhile (fun entry => entry.1 ≠ name) ++
      (((Data.member? name fields).bind shapeOf?).elim [] (before rest))

/-! ### Ways -/

variable {P : Data → Prop} {fields : List (String × Data)}

theorem at?_cons {name : String} {data : Data} (hdata : Data.member? name fields = some data) (next : String)
    (rest : List String) : at? (name :: next :: rest) fields = (shapeOf? data).bind (at? (next :: rest)) := by
  simp only [at?, hdata, Option.bind_some]

/-- Through a shape a way leads to the definitions in it. -/
theorem at?_of_shape {name : String} {data : Data} {shape : List (String × Data)}
    (hdata : Data.member? name fields = some data) (hshape : shapeOf? data = some shape) {way : List String}
    {found : Data} (hat : at? way shape = some found) : at? (name :: way) fields = some found := by
  cases way with
  | nil => cases hat
  | cons next rest => rw [at?_cons hdata, hshape, Option.bind_some, hat]

theorem Everywhere.of_member? (h : Everywhere P fields) {name : String} {data : Data}
    (hdata : Data.member? name fields = some data) : P data :=
  h [name] data hdata

theorem Everywhere.shape (h : Everywhere P fields) {name : String} {data : Data}
    {shape : List (String × Data)} (hdata : Data.member? name fields = some data)
    (hshape : shapeOf? data = some shape) : Everywhere P shape :=
  fun way found hat => h (name :: way) found (at?_of_shape hdata hshape hat)

/-- All definitions have a property if those among the fields have it, and all in their shapes. -/
theorem everywhere_iff (hdistinct : (fields.map (·.1)).Nodup) :
    Everywhere P fields ↔
      ∀ name data, (name, data) ∈ fields →
        P data ∧ ∀ shape, shapeOf? data = some shape → Everywhere P shape := by
  constructor
  · intro h name data hmem
    have hdata := (Data.member?_eq_some_iff hdistinct).mpr hmem
    exact ⟨h.of_member? hdata, fun shape hshape => h.shape hdata hshape⟩
  · intro h way found hat
    match way with
    | [] => cases hat
    | [name] => exact (h name found ((Data.member?_eq_some_iff hdistinct).mp hat)).1
    | name :: next :: rest =>
      cases hdata : Data.member? name fields with
      | none =>
        simp only [at?, hdata, Option.bind_none] at hat
        cases hat
      | some data =>
        rw [at?_cons hdata] at hat
        obtain ⟨shape, hshape, hat⟩ := Option.bind_eq_some_iff.mp hat
        exact (h name data ((Data.member?_eq_some_iff hdistinct).mp hdata)).2 shape hshape _ _ hat

/-- A shape repeats no key if the definition does not. -/
theorem hasDistinctKeys_of_shapeOf? {data : Data} (h : data.HasDistinctKeys) {shape : List (String × Data)}
    (hshape : shapeOf? data = some shape) : (Data.obj shape).HasDistinctKeys := by
  cases data with
  | obj members =>
    obtain ⟨value, hvalue, hobj⟩ := Option.bind_eq_some_iff.mp hshape
    obtain ⟨key, -, hmem⟩ := Attribute.exists_mem_of_given? hvalue
    cases value with
    | obj found =>
      obtain rfl : found = shape := Option.some.inj hobj
      exact Data.membersHaveDistinctKeys_iff.mp h.2 key _ hmem
    | null | bool _ | num _ | str _ | arr _ => cases hobj
  | null | bool _ | num _ | str _ | arr _ => cases hshape

/-! ### Induction on depth -/

theorem sizeOf_lt_of_shapeOf? {data : Data} {shape : List (String × Data)} (h : shapeOf? data = some shape) :
    sizeOf shape < sizeOf data := by
  cases data with
  | obj members =>
    obtain ⟨value, hvalue, hobj⟩ := Option.bind_eq_some_iff.mp h
    obtain ⟨key, -, hmem⟩ := Attribute.exists_mem_of_given? hvalue
    cases value with
    | obj found =>
      obtain rfl : found = shape := Option.some.inj hobj
      have hlt := List.sizeOf_lt_of_mem hmem
      simp only [Prod.mk.sizeOf_spec, Data.obj.sizeOf_spec] at hlt ⊢
      omega
    | null | bool _ | num _ | str _ | arr _ => cases hobj
  | null | bool _ | num _ | str _ | arr _ => cases h

/-- What holds of definitions if it holds of all shapes that they give holds of all definitions. -/
theorem induction_on_depth {motive : List (String × Data) → Prop}
    (step : ∀ fields, (∀ name data shape, (name, data) ∈ fields → shapeOf? data = some shape → motive shape) →
      motive fields) (fields : List (String × Data)) : motive fields :=
  step fields fun name data shape hmem hshape =>
    have : sizeOf shape < sizeOf fields := by
      have hlt := List.sizeOf_lt_of_mem hmem
      have hshape := sizeOf_lt_of_shapeOf? hshape
      simp only [Prod.mk.sizeOf_spec] at hlt
      omega
    induction_on_depth step shape
termination_by sizeOf fields

/-! ### Fields that are read -/

variable {validators : Validators} {path : FieldPath} {schema : Schema}

/-- Fields are read if each is. -/
theorem exists_readFields_iff_forall :
    (∃ schema, readFields validators path fields = .ok schema) ↔
      ∀ name data, (name, data) ∈ fields → ∃ field, readField validators (path.field name) data =
        .ok field := by
  induction fields with
  | nil => exact iff_of_true ⟨[], rfl⟩ nofun
  | cons head rest ih =>
    obtain ⟨name, data⟩ := head
    rw [forall_members_cons, ← ih]
    constructor
    · rintro ⟨schema, h⟩
      rw [readFields] at h
      obtain ⟨field, hfield, h⟩ := bind_eq_ok.mp h
      obtain ⟨others, hothers, -⟩ := bind_eq_ok.mp h
      exact ⟨⟨field, hfield⟩, others, hothers⟩
    · rintro ⟨⟨field, hfield⟩, others, hothers⟩
      rw [readFields, hfield, hothers]
      exact ⟨_, rfl⟩

/-- Under each name stands the field that is read from the definition under it. -/
theorem rel_member?_find? (h : readFields validators path fields = .ok schema) (name : String) :
    Option.Rel (fun data field => readField validators (path.field name) data = .ok field)
      (Data.member? name fields) (schema.find? name) := by
  induction fields generalizing schema with
  | nil =>
    rw [readFields] at h
    obtain rfl := Except.ok.inj h
    exact .none
  | cons head rest ih =>
    obtain ⟨first, data⟩ := head
    rw [readFields] at h
    obtain ⟨field, hfield, h⟩ := bind_eq_ok.mp h
    obtain ⟨others, hothers, h⟩ := bind_eq_ok.mp h
    obtain rfl := Except.ok.inj h
    rw [Data.member?, Schema.find?]
    by_cases hname : first = name
    · subst hname
      rw [if_pos rfl, if_pos rfl]
      exact .some hfield
    · rw [if_neg hname, if_neg hname]
      exact ih hothers

/-- The names of a schema are those of the definitions, in their order. -/
theorem names_of_readFields (h : readFields validators path fields = .ok schema) :
    schema.names = fields.map (·.1) := by
  induction fields generalizing schema with
  | nil =>
    rw [readFields] at h
    obtain rfl := Except.ok.inj h
    rfl
  | cons head rest ih =>
    obtain ⟨first, data⟩ := head
    rw [readFields] at h
    obtain ⟨field, -, h⟩ := bind_eq_ok.mp h
    obtain ⟨others, hothers, h⟩ := bind_eq_ok.mp h
    obtain rfl := Except.ok.inj h
    rw [List.map_cons, ← ih hothers]
    rfl

/-- Where fields are not read, there is a first one that is not. -/
theorem split_of_readFields_eq_error {error : SchemaError}
    (h : readFields validators path fields = .error error) :
    ∃ earlier name data later, fields = earlier ++ (name, data) :: later ∧
      (∃ schema, readFields validators path earlier = .ok schema) ∧
        readField validators (path.field name) data = .error error := by
  induction fields with
  | nil => cases h
  | cons head rest ih =>
    obtain ⟨name, data⟩ := head
    cases hfield : readField validators (path.field name) data with
    | error fault =>
      rw [readFields, hfield] at h
      obtain rfl := Except.error.inj h
      exact ⟨[], name, data, rest, rfl, ⟨[], rfl⟩, hfield⟩
    | ok field =>
      cases hrest : readFields validators path rest with
      | ok others =>
        rw [readFields, hfield, hrest] at h
        cases h
      | error fault =>
        rw [readFields, hfield, hrest] at h
        obtain rfl := Except.error.inj h
        obtain ⟨earlier, other, found, later, rfl, ⟨others, hothers⟩, hfound⟩ := ih hrest
        refine ⟨(name, data) :: earlier, other, found, later, rfl, ?_, hfound⟩
        rw [readFields, hfield, hothers]
        exact ⟨_, rfl⟩

/-! ### Trees -/

/-- Whether no definition is an array. -/
def NoArrays (fields : List (String × Data)) : Prop :=
  Everywhere (fun data => ∀ items, data ≠ .arr items) fields

/-- An object without a shape is no array, and has none below it. -/
theorem noArrays_of_shapeOf? {members : List (String × Data)} (h : shapeOf? (.obj members) = none) :
    (∀ items, Data.obj members ≠ .arr items) ∧ ∀ shape, shapeOf? (.obj members) = some shape →
      NoArrays shape := by
  constructor
  · intro items heq
    cases heq
  · intro shape hshape
    rw [h] at hshape
    cases hshape

/-- **Fields are read** exactly from definitions that are all well-formed. -/
theorem exists_readFields_iff : ∀ (fields : List (String × Data)) (path : FieldPath),
    (Data.obj fields).HasDistinctKeys → NoArrays fields →
      ((∃ schema, readFields validators path fields = .ok schema) ↔
        Everywhere (WellFormed validators) fields) := by
  refine induction_on_depth fun fields ih => ?_
  intro path hdistinct harrays
  have hbelow := (everywhere_iff hdistinct.1).mp harrays
  rw [exists_readFields_iff_forall, everywhere_iff hdistinct.1]
  refine forall_congr' fun name => forall_congr' fun data => forall_congr' fun hmem => ?_
  have hdata := Data.membersHaveDistinctKeys_iff.mp hdistinct.2 name data hmem
  cases data with
  | obj members =>
    have hself : WellFormed validators (.obj members) ↔ IsWellFormed validators members :=
      ⟨fun h => by obtain ⟨_, ⟨⟩, h⟩ := h; exact h, fun h => ⟨members, rfl, h⟩⟩
    rw [exists_readField_iff, hself]
    refine and_congr_right' (forall_congr' fun shape => forall_congr' fun hshape => ?_)
    exact ih name _ shape hmem hshape _ (hasDistinctKeys_of_shapeOf? hdata hshape)
      ((hbelow name _ hmem).2 shape hshape)
  | arr items => exact absurd rfl ((hbelow name _ hmem).1 items)
  | null | bool _ | num _ | str _ =>
    refine iff_of_false ?_ fun h => ?_
    · rintro ⟨field, h⟩
      simp [readField] at h
    · obtain ⟨members, hobj, -⟩ := h.1
      cases hobj

/-- What is read from a definition describes it. -/
theorem describes_of_readField {data : Data} {field : Field} (hobject : ∀ items, data ≠ .arr items)
    (h : readField validators path data = .ok field) :
    Describes validators data field ∧
      Option.Rel (fun shape fields => readFields validators path shape = .ok fields)
        (shapeOf? data) field.shape := by
  cases data with
  | obj members =>
    obtain ⟨-, htype, hfits, htransform, hrel⟩ := of_readField_eq_ok h
    refine ⟨⟨htype, ?_, hfits.symm, htransform⟩, hrel⟩
    generalize field.shape = found at hrel
    generalize shapeOf? (.obj members) = given at hrel
    cases hrel with
    | none => rfl
    | some hread => exact congrArg some (names_of_readFields hread)
  | arr items => exact absurd rfl (hobject items)
  | null | bool _ | num _ | str _ => simp [readField] at h

/-- **The schema is what the definitions say.** A way leads to a field if it leads to a definition,
and to one that it describes. -/
theorem rel_along? (h : readFields validators path fields = .ok schema) (harrays : NoArrays fields)
    (way : List String) : Option.Rel (Describes validators) (at? way fields) (schema.along? way) := by
  induction way generalizing fields path schema with
  | nil => exact .none
  | cons name rest ih =>
    have hrel := rel_member?_find? h name
    cases hdata : Data.member? name fields with
    | none =>
      rw [hdata] at hrel
      have hfind := eq_none_of_rel hrel
      cases rest <;> simp only [at?, Schema.along?, hdata, hfind, Option.bind_none] <;> exact .none
    | some data =>
      rw [hdata] at hrel
      obtain ⟨field, hfind, hread⟩ := exists_eq_some_of_rel hrel
      obtain ⟨hdescribes, hshapes⟩ := describes_of_readField (harrays.of_member? hdata) hread
      cases rest with
      | nil =>
        rw [at?, Schema.along?, hdata, hfind]
        exact .some hdescribes
      | cons next rest =>
        simp only [at?, Schema.along?, hdata, hfind, Option.bind_some]
        cases hshape : shapeOf? data with
        | none =>
          rw [hshape] at hshapes
          rw [eq_none_of_rel hshapes]
          exact .none
        | some shape =>
          rw [hshape] at hshapes
          obtain ⟨below, hbelow, hread⟩ := exists_eq_some_of_rel hshapes
          rw [hbelow]
          exact ih hread (harrays.shape hdata hshape)

theorem Everywhere.of_subset (h : Everywhere P fields) (hdistinct : (fields.map (·.1)).Nodup)
    {part : List (String × Data)} (hpart : (part.map (·.1)).Nodup) (hsubset : part ⊆ fields) :
    Everywhere P part :=
  (everywhere_iff hpart).mpr fun name data hmem => (everywhere_iff hdistinct).mp h name data (hsubset hmem)

/-- Each of the definitions that are read is well-formed, and so are all in its shape. -/
theorem everywhere_wellFormed_of_mem (hdistinct : (Data.obj fields).HasDistinctKeys)
    (harrays : NoArrays fields) {part : List (String × Data)} (hsubset : part ⊆ fields)
    (hread : ∃ schema, readFields validators path part = .ok schema) {entry : String × Data}
    (hmem : entry ∈ part) : Everywhere (WellFormed validators) [entry] := by
  have hone : [entry] ⊆ fields := by
    intro other hother
    rw [List.mem_singleton.mp hother]
    exact hsubset hmem
  have hdata := Data.membersHaveDistinctKeys_iff.mp hdistinct.2 entry.1 entry.2 (hsubset hmem)
  have hself : (Data.obj [entry]).HasDistinctKeys := ⟨List.pairwise_singleton _ _, hdata, trivial⟩
  refine (exists_readFields_iff [entry] path hself
    (Everywhere.of_subset harrays hdistinct.1 hself.1 hone)).mp ?_
  refine exists_readFields_iff_forall.mpr fun name data hother => ?_
  exact exists_readFields_iff_forall.mp hread name data (List.mem_singleton.mp hother ▸ hmem)

theorem takeWhile_append_of_notMem {earlier later : List (String × Data)} {name : String} {data : Data}
    (h : name ∉ earlier.map (·.1)) :
    (earlier ++ (name, data) :: later).takeWhile (fun entry => entry.1 ≠ name) = earlier := by
  rw [List.takeWhile_append_of_pos, List.takeWhile_cons_of_neg, List.append_nil]
  · simp
  · intro entry hentry
    exact decide_eq_true fun heq => h (heq ▸ List.mem_map_of_mem (f := (·.1)) hentry)

/-- **The error is the first.** -/
theorem readFields_eq_error : ∀ (fields : List (String × Data)) (path : FieldPath) (error : SchemaError),
    (Data.obj fields).HasDistinctKeys → NoArrays fields → readFields validators path fields = .error error →
      (∃ fault, error = .format fault) ∨
        ∃ way data name, at? way fields = some data ∧ NamesUnknown validators data name ∧
          error = .unknownValidator name (path ++ way.map Segment.field).render ∧
            ∀ entry ∈ before way fields, Everywhere (WellFormed validators) [entry] := by
  refine induction_on_depth fun fields ih => ?_
  intro path error hdistinct harrays h
  -- the first definition that is not read; those before it are, and so they are well-formed
  obtain ⟨earlier, name, data, later, rfl, hearlier, herror⟩ := split_of_readFields_eq_error h
  have hmem : (name, data) ∈ earlier ++ (name, data) :: later := List.mem_append_right _ List.mem_cons_self
  have hdata := (Data.member?_eq_some_iff hdistinct.1).mpr hmem
  have hnew : name ∉ earlier.map (·.1) := by
    intro hname
    have hnodup := hdistinct.1
    rw [List.map_append, List.nodup_append] at hnodup
    exact hnodup.2.2 name hname name List.mem_cons_self rfl
  have hbefore : ∀ entry ∈ earlier, Everywhere (WellFormed validators) [entry] := fun entry hentry =>
    everywhere_wellFormed_of_mem hdistinct harrays (List.subset_append_left _ _) hearlier hentry
  cases data with
  | obj members =>
    rcases readField_eq_error herror with
      hfault | ⟨other, hgiven, hobject, harray, hnone, rfl⟩ | ⟨shape, hshape, hread⟩
    · exact .inl hfault
    · refine .inr ⟨[name], _, other, hdata, ⟨members, rfl, hgiven, hobject, harray, hnone⟩, rfl,
        fun entry hentry => ?_⟩
      have hnone : ∀ shape : Option (List (String × Data)), shape.elim [] (before []) = [] := by
        rintro (_ | shape) <;> rfl
      rw [before, takeWhile_append_of_notMem hnew, hnone, List.append_nil] at hentry
      exact hbefore entry hentry
    · -- the error comes from the shape, and stands there at the end of a way that starts with this name
      have hkeys := Data.membersHaveDistinctKeys_iff.mp hdistinct.2 name _ hmem
      rcases ih name _ shape hmem hshape _ error (hasDistinctKeys_of_shapeOf? hkeys hshape)
        (harrays.shape hdata hshape)
        hread with hfault | ⟨way, found, other, hat, hunknown, rfl, hall⟩
      · exact .inl hfault
      · refine .inr ⟨name :: way, found, other, at?_of_shape hdata hshape hat, hunknown, ?_,
          fun entry hentry => ?_⟩
        · simp [FieldPath.field]
        · rw [before, takeWhile_append_of_notMem hnew, hdata, Option.bind_some, hshape] at hentry
          exact (List.mem_append.mp hentry).elim (hbefore entry) (hall entry)
  | arr items => exact absurd rfl (harrays.of_member? hdata items)
  | null | bool _ | num _ | str _ =>
    simp only [readField] at herror
    exact .inl ⟨_, (Except.error.inj herror).symm⟩

/-- **Well-formed trees of definitions are read.** Where no key is repeated and no definition is an
array, fields are read exactly if all definitions are well-formed. Then the schema has the names of
the definitions, and each way leads to a field in it if it leads to a definition, to one that is
what the definition says. Otherwise the error is a fault of the form, or it tells a validator that
is not registered, with the path of the definition that names it, and all definitions that are read
before that one are well-formed. -/
theorem readFields_trees (validators : Validators) {fields : List (String × Data)}
    (hdistinct : (Data.obj fields).HasDistinctKeys) (harrays : NoArrays fields) :
    ((∃ schema, readFields validators [] fields = .ok schema) ↔ Everywhere (WellFormed validators) fields) ∧
      (∀ schema, readFields validators [] fields = .ok schema →
        schema.names = fields.map (·.1) ∧
          ∀ way, Option.Rel (Describes validators) (at? way fields) (schema.along? way)) ∧
        ∀ error, readFields validators [] fields = .error error →
          (∃ fault, error = .format fault) ∨
            ∃ way data name, at? way fields = some data ∧ NamesUnknown validators data name ∧
              error = .unknownValidator name (FieldPath.render (way.map .field)) ∧
                ∀ entry ∈ before way fields, Everywhere (WellFormed validators) [entry] :=
  ⟨exists_readFields_iff fields [] hdistinct harrays,
    fun _ h => ⟨names_of_readFields h, fun way => rel_along? h harrays way⟩,
    fun error h => readFields_eq_error fields [] error hdistinct harrays h⟩

/-- Definitions of the lines of an order. -/
def lineDefinitions : List (String × Data) := [
  ("state",
    .obj [("type", .arr [.str "open", .str "done"]), ("additionalXml", .obj [("@checked", .bool true)])]),
  ("price", .obj [("type", .str "amount"), ("required", .null), ("xpath", .str "/order/line[lines]/price")])]

/-- Definitions of an order. -/
def orderDefinitions : List (String × Data) := [
  ("number", .obj [("type", .str "string")]),
  ("lines", .obj [("type", .str "object[]"), ("group", .str "lines"), ("shape", .obj lineDefinitions)])]

theorem readFields_trees_order :
    ∃ schema, readFields Validators.standard [] orderDefinitions = .ok schema ∧
      Everywhere (WellFormed Validators.standard) orderDefinitions ∧ schema.names = ["number", "lines"] ∧
        ∀ way, Option.Rel (Describes Validators.standard) (at? way orderDefinitions) (schema.along? way) := by
  have hdistinct : (Data.obj orderDefinitions).HasDistinctKeys := by
    simp [orderDefinitions, lineDefinitions, Data.HasDistinctKeys, Data.MembersHaveDistinctKeys,
      Data.ItemsHaveDistinctKeys]
  have hlines : NoArrays lineDefinitions := by
    refine (everywhere_iff (by decide)).mpr fun name data hmem => ?_
    simp only [lineDefinitions, List.mem_cons, List.not_mem_nil, or_false, Prod.mk.injEq] at hmem
    rcases hmem with ⟨-, rfl⟩ | ⟨-, rfl⟩ <;> exact noArrays_of_shapeOf? rfl
  have harrays : NoArrays orderDefinitions := by
    refine (everywhere_iff hdistinct.1).mpr fun name data hmem => ?_
    simp only [orderDefinitions, List.mem_cons, List.not_mem_nil, or_false, Prod.mk.injEq] at hmem
    rcases hmem with ⟨-, rfl⟩ | ⟨-, rfl⟩
    · exact noArrays_of_shapeOf? rfl
    · refine ⟨fun items heq => ?_, fun shape hshape => ?_⟩
      · cases heq
      · obtain rfl : lineDefinitions = shape := Option.some.inj hshape
        exact hlines
  obtain ⟨hread, hdescribes, -⟩ := readFields_trees Validators.standard hdistinct harrays
  have hok : (readFields Validators.standard [] orderDefinitions).toOption.isSome = true := rfl
  cases h : readFields Validators.standard [] orderDefinitions with
  | error error =>
    rw [h] at hok
    cases hok
  | ok schema => exact ⟨schema, rfl, hread.mp ⟨schema, h⟩, hdescribes schema h⟩

end FieldDefinition

end InvoiceXml
