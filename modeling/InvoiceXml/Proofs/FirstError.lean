import InvoiceXml.Proofs.Check
import InvoiceXml.Proofs.Schema.Lookup
import InvoiceXml.Proofs.Schema.Names

/-!
# The first error

An object is refused with the error of the first check that fails (`validate_eq_error_iff`).

* `follows_checksBelow`: other data is checked in the same way for as long as the checks see the
  same in it, an array with more items, too, because the check behind its last item looks for one
  more;
* `exists_leads`: every check stands at the end of a way through the schema and the data (`Leads`),
  and so the text of its path leads to its field (`exists_path_of_check`);
* **`validate_first_error`**: the error is that of the first check that fails, its path leads to the
  field that fails, and data that is only seen by later checks does not matter to it;
* **`key_of_error`**: which errors name the business term of the field at their path.
-/

namespace InvoiceXml

namespace Validation

/-! ### Data that checks see alike -/

section Alike

variable {input other : Data} {check : Check}

theorem itemFault?_outline (item : Option Data) : itemFault? (item.map Data.outline) = itemFault? item := by
  cases item with
  | none => rfl
  | some data => cases data <;> rfl

theorem fault?_bare {field : Field} (hobject : field.type.isObjectLike = true) (hshape : field.shape = none)
    (value : Option Data) : field.fault? value = none := by
  have hgiven : ¬(value.isNone ∧ mayOmit field) := by simp [mayOmit, hobject]
  rw [Field.fault?, if_neg hgiven, hshape]
  cases htype : field.type with
  | scalar _ | choice _ => simp [htype, FieldType.isObjectLike] at hobject
  | object | objectArray => rfl

theorem fault?_outline {field : Field} (hobject : field.type.isObjectLike = true) (value : Option Data) :
    field.fault? (value.map Data.outline) = field.fault? value := by
  cases hshape : field.shape with
  | none => rw [fault?_bare hobject hshape, fault?_bare hobject hshape]
  | some below =>
    have hgiven : ∀ value : Option Data, ¬(value.isNone ∧ mayOmit field) := by simp [mayOmit, hobject]
    rw [Field.fault?, Field.fault?, if_neg (hgiven _), if_neg (hgiven _), hshape]
    cases htype : field.type with
    | scalar _ | choice _ => simp [htype, FieldType.isObjectLike] at hobject
    | object | objectArray =>
      cases value with
      | none => rfl
      | some data => cases data <;> rfl

/-- What a check finds depends only on what it sees. -/
theorem error?_of_sees (h : check.sees other = check.sees input) :
    check.error? other = check.error? input := by
  have hfault : check.fault? other = check.fault? input := by
    simp only [Check.sees] at h
    rw [Check.fault?, Check.fault?]
    cases hitem : check.isItem with
    | true =>
      simp only [hitem, if_true] at h ⊢
      rw [← itemFault?_outline, h, itemFault?_outline]
    | false =>
      simp only [hitem, Bool.false_eq_true, if_false] at h ⊢
      cases hobject : check.field.type.isObjectLike with
      | false =>
        simp only [hobject, Bool.false_eq_true, if_false] at h
        rw [h]
      | true =>
        cases hshape : check.field.shape with
        | none => rw [fault?_bare hobject hshape, fault?_bare hobject hshape]
        | some below =>
          simp only [hobject, hshape, if_true, Option.isSome_some] at h
          rw [← fault?_outline hobject, h, fault?_outline hobject]
  rw [Check.error?, Check.error?, hfault]

/-- Whether two lists of checks have the same first check, and go on so as long as each of these
checks is passed. -/
inductive Follows (passed : Check → Prop) : List Check → List Check → Prop
  | nil : Follows passed [] []
  | cons {check : Check} {checks others : List Check} (rest : passed check → Follows passed checks others) :
      Follows passed (check :: checks) (check :: others)

variable {passed : Check → Prop} {checks others later more before after : List Check}

theorem Follows.append (h : Follows passed checks others) (hlater : Follows passed later more) :
    Follows passed (checks ++ later) (others ++ more) := by
  induction h with
  | nil => exact hlater
  | cons _ ih => exact .cons ih

/-- If all checks before one are passed, the other list has them, too, and that one next. -/
theorem Follows.exists_append (h : Follows passed (before ++ check :: after) others)
    (hpassed : ∀ earlier ∈ before, passed earlier) : ∃ more, others = before ++ check :: more := by
  induction before generalizing others with
  | nil =>
    cases h with
    | cons => exact ⟨_, rfl⟩
  | cons first before ih =>
    rw [List.forall_mem_cons] at hpassed
    cases h with
    | cons rest =>
      obtain ⟨more, rfl⟩ := ih (rest hpassed.1) hpassed.2
      exact ⟨more, rfl⟩

theorem follows_itemChecks {field : Field} {path : FieldPath} {below otherBelow : FieldPath → List Check}
    (hbelow : ∀ place, Follows passed (below place) (otherBelow place)) (number : Nat)
    {count otherCount : Nat}
    (hcount : ∀ i, passed { path := path.item (number + i), field, isItem := true } →
      (i < count ↔ i < otherCount)) :
    Follows passed (itemChecks field below path number count)
        (itemChecks field otherBelow path number otherCount) := by
  induction count generalizing number otherCount with
  | zero =>
    cases otherCount with
    | zero => exact .cons fun _ => .nil
    | succ otherCount => exact .cons fun hpassed => absurd (hcount 0 hpassed) (by simp)
  | succ count ih =>
    cases otherCount with
    | zero => exact .cons fun hpassed => absurd (hcount 0 hpassed) (by simp)
    | succ otherCount =>
      refine .cons fun _ => (hbelow _).append (ih (number + 1) fun i hpassed => ?_)
      rw [Nat.add_right_comm] at hpassed
      simpa using hcount (i + 1) hpassed

theorem lt_length_iff_of_sees {field : Field} {path : FieldPath} {number : Nat}
    (h : Check.sees other { path := path.item number, field, isItem := true } =
      Check.sees input { path := path.item number, field, isItem := true }) :
    number < (input.itemsAt path).length ↔ number < (other.itemsAt path).length := by
  have hsome : ((other.itemsAt path)[number]?.map Data.outline).isSome =
      ((input.itemsAt path)[number]?.map Data.outline).isSome := by
    rw [← Data.valueAt?_item_eq, ← Data.valueAt?_item_eq]
    exact congrArg Option.isSome h
  rw [Option.isSome_map, Option.isSome_map, Bool.eq_iff_iff] at hsome
  simpa using hsome.symm

/-- Other data is checked alike for as long as the checks see the same in it. -/
theorem follows_checksBelow (input other : Data) : ∀ (fields : List (String × Field)) (path : FieldPath),
    Follows (fun check => check.sees other = check.sees input) (checksBelow input path fields)
      (checksBelow other path fields) := by
  refine Schema.induction_on_shapes fun fields ih path => ?_
  induction fields with
  | nil => exact .nil
  | cons head rest ihRest =>
    obtain ⟨name, field⟩ := head
    rw [checksBelow, checksBelow]
    refine Follows.append ?_ (ihRest fun name field below hmem =>
      ih name field below (List.mem_cons_of_mem _ hmem))
    have hbelow := fun below => ih name field below List.mem_cons_self
    cases hshape : field.shape with
    | none =>
      rw [checksOfField_leaf (.inr hshape), checksOfField_leaf (.inr hshape)]
      exact .cons fun _ => .nil
    | some below =>
      cases htype : field.type with
      | scalar _ | choice _ =>
        have hleaf : field.type.isObjectLike = false := by rw [htype]; rfl
        rw [checksOfField_leaf (.inl hleaf), checksOfField_leaf (.inl hleaf)]
        exact .cons fun _ => .nil
      | object =>
        rw [checksOfField_object htype hshape, checksOfField_object htype hshape]
        exact .cons fun _ => hbelow below hshape _
      | objectArray =>
        rw [checksOfField_array htype hshape, checksOfField_array htype hshape]
        refine .cons fun _ => follows_itemChecks (hbelow below hshape) 0 fun i hsees => ?_
        rw [Nat.zero_add] at hsees
        exact lt_length_iff_of_sees hsees

end Alike

/-! ### Where checks stand -/

section Leads

/-- Whether a path leads to a check from fields whose values are those of an object at a place of
the data: through names that are declared and items that are there. -/
inductive Leads (input : Data) : FieldPath → List (String × Field) → FieldPath → Check → Prop
  | value {place : FieldPath} {fields : List (String × Field)} {name : String} {field : Field}
      (find : Schema.find? name fields = some field) :
      Leads input place fields [.field name] { path := place.field name, field }
  | item {place : FieldPath} {fields : List (String × Field)} {name : String} {field : Field} {number : Nat}
      (find : Schema.find? name fields = some field) (type : field.type = .objectArray) :
      Leads input place fields [.field name, .item number]
        { path := (place.field name).item number, field, isItem := true }
  | inObject {place inner : FieldPath} {fields below : List (String × Field)} {name : String} {field : Field}
      {check : Check} (find : Schema.find? name fields = some field) (type : field.type = .object)
      (shape : field.shape = some below) (rest : Leads input (place.field name) below inner check) :
      Leads input place fields (.field name :: inner) check
  | inItem {place inner : FieldPath} {fields below : List (String × Field)} {name : String} {field : Field}
      {number : Nat} {check : Check} (find : Schema.find? name fields = some field)
      (type : field.type = .objectArray)
      (shape : field.shape = some below)
      (given : (input.valueAt? ((place.field name).item number)).isSome = true)
      (rest : Leads input ((place.field name).item number) below inner check) :
      Leads input place fields (.field name :: .item number :: inner) check

variable {input : Data} {place inner path : FieldPath} {fields : List (String × Field)}
  {field : Field} {check : Check}

theorem mem_itemChecks {below : FieldPath → List Check} {number count : Nat}
    (h : check ∈ itemChecks field below path number count) :
    (∃ i, check = { path := path.item i, field, isItem := true }) ∨
      ∃ i < number + count, check ∈ below (path.item i) := by
  induction count generalizing number with
  | zero =>
    rw [itemChecks, List.mem_singleton] at h
    exact .inl ⟨number, h⟩
  | succ count ih =>
    rw [itemChecks, List.mem_cons, List.mem_append] at h
    rcases h with h | h | h
    · exact .inl ⟨number, h⟩
    · exact .inr ⟨number, by omega, h⟩
    · rcases ih h with h | ⟨i, hi, h⟩
      · exact .inl h
      · exact .inr ⟨i, by omega, h⟩

theorem mem_checksOfField (h : check ∈ checksOfField input path field) :
    check = { path, field } ∨
      (∃ below, field.type = .object ∧ field.shape = some below ∧ check ∈ checksBelow input path below) ∨
      ∃ below, field.type = .objectArray ∧ field.shape = some below ∧
        check ∈ itemChecks field (fun path => checksBelow input path below) path 0
          (input.itemsAt path).length := by
  cases hshape : field.shape with
  | none =>
    rw [checksOfField_leaf (.inr hshape), List.mem_singleton] at h
    exact .inl h
  | some below =>
    cases htype : field.type with
    | scalar _ | choice _ =>
      rw [checksOfField_leaf (.inl (by rw [htype]; rfl)), List.mem_singleton] at h
      exact .inl h
    | object =>
      rw [checksOfField_object htype hshape, List.mem_cons] at h
      exact h.imp_right fun h => .inl ⟨below, rfl, rfl, h⟩
    | objectArray =>
      rw [checksOfField_array htype hshape, List.mem_cons] at h
      exact h.imp_right fun h => .inr ⟨below, rfl, rfl, h⟩

theorem mem_checksBelow (h : check ∈ checksBelow input path fields) :
    ∃ name field, (name, field) ∈ fields ∧ check ∈ checksOfField input (path.field name) field := by
  induction fields with
  | nil => cases h
  | cons head rest ih =>
    obtain ⟨name, field⟩ := head
    rw [checksBelow, List.mem_append] at h
    rcases h with h | h
    · exact ⟨name, field, List.mem_cons_self, h⟩
    · obtain ⟨other, found, hmem, h⟩ := ih h
      exact ⟨other, found, List.mem_cons_of_mem _ hmem, h⟩

/-- Where names are distinct, a path leads to every check. -/
theorem exists_leads {holds : List String → Prop} (hnodup : ∀ names, holds names → names.Nodup) :
    ∀ fields : List (String × Field), Schema.NamesHold holds fields →
      ∀ place, check ∈ checksBelow input place fields → ∃ inner, Leads input place fields inner check := by
  refine Schema.induction_on_shapes fun fields ih hholds place h => ?_
  obtain ⟨name, field, hmem, h⟩ := mem_checksBelow h
  have hfind := Schema.find?_eq_some_of_mem (hnodup _ hholds.1) hmem
  rcases mem_checksOfField h with rfl | ⟨below, htype, hshape, h⟩ | ⟨below, htype, hshape, h⟩
  · exact ⟨_, .value hfind⟩
  · obtain ⟨inner, hleads⟩ := ih name field below hmem hshape (hholds.of_find? hfind hshape) _ h
    exact ⟨_, .inObject hfind htype hshape hleads⟩
  · rcases mem_itemChecks h with ⟨number, rfl⟩ | ⟨number, hnumber, h⟩
    · exact ⟨_, .item hfind htype⟩
    · obtain ⟨inner, hleads⟩ := ih name field below hmem hshape (hholds.of_find? hfind hshape) _ h
      refine ⟨_, .inItem hfind htype hshape ?_ hleads⟩
      rw [Data.valueAt?_item_eq]
      simpa using hnumber

namespace Leads

theorem path_eq (h : Leads input place fields inner check) : check.path = place ++ inner := by
  induction h with
  | value | item => simp [FieldPath.field, FieldPath.item]
  | inObject _ _ _ _ ih => simp [ih, FieldPath.field]
  | inItem _ _ _ _ _ ih => simp [ih, FieldPath.field, FieldPath.item]

theorem startsWithName (h : Leads input place fields inner check) : FieldPath.StartsWithName inner := by
  cases h <;> trivial

theorem along?_names (h : Leads input place fields inner check) :
    Schema.along? (FieldPath.names inner) fields = some check.field := by
  induction h with
  | value find | item find => exact find
  | inObject find _ shape _ ih | inItem find _ shape _ _ ih => exact Schema.along?_cons_of_shape find shape ih

theorem names_ne_nil (h : Leads input place fields inner check) : FieldPath.names inner ≠ [] := by
  cases h <;> exact List.cons_ne_nil _ _

/-- What holds of lists of names at every depth holds of one that each name of the path is in. -/
theorem exists_mem_names {holds : List String → Prop} (h : Leads input place fields inner check)
    (hholds : Schema.NamesHold holds fields) :
    ∀ name ∈ FieldPath.names inner, ∃ declared, holds declared ∧ name ∈ declared := by
  have hfirst : ∀ {fields : List (String × Field)} {name : String} {field : Field},
      Schema.NamesHold holds fields → Schema.find? name fields = some field →
        ∃ declared, holds declared ∧ name ∈ declared :=
    fun hholds hfind => ⟨_, hholds.1, List.mem_map_of_mem (f := (·.1)) (Schema.mem_of_find?_eq_some hfind)⟩
  induction h with
  | value find | item find =>
    intro name hname
    obtain rfl := List.mem_singleton.mp hname
    exact hfirst hholds find
  | inObject find _ shape _ ih | inItem find _ shape _ _ ih =>
    exact List.forall_mem_cons.mpr ⟨hfirst hholds find, ih (hholds.of_find? find shape)⟩

/-- A number on the way is that of an item of an array that the schema declares there. It is there,
except for the number at the end, which may be one that is looked for. -/
theorem array_of_item (h : Leads input place fields inner check) {outer rest : FieldPath} {number : Nat}
    (hinner : inner = outer ++ .item number :: rest) :
    ∃ array, Schema.along? (FieldPath.names outer) fields = some array ∧ array.type = .objectArray ∧
      (rest = [] → check.isItem = true) ∧
      (rest ≠ [] → (input.valueAt? ((place ++ outer).item number)).isSome = true) := by
  induction h generalizing outer with
  | value find =>
    rcases outer with _ | ⟨segment, outer⟩
    · cases hinner
    · simp at hinner
  | item find type =>
    rcases outer with _ | ⟨segment, _ | ⟨next, outer⟩⟩
    · cases hinner
    · cases hinner
      exact ⟨_, find, type, fun _ => rfl, fun hne => absurd rfl hne⟩
    · simp at hinner
  | inObject find type shape _ ih =>
    rcases outer with _ | ⟨segment, outer⟩
    · cases hinner
    · rw [List.cons_append, List.cons.injEq] at hinner
      obtain ⟨rfl, hbelow⟩ := hinner
      obtain ⟨array, hfound, htype, hlast, hgiven⟩ := ih hbelow
      refine ⟨array, Schema.along?_cons_of_shape find shape hfound, htype, hlast, ?_⟩
      simpa [FieldPath.field] using hgiven
  | inItem find type shape given hrest ih =>
    rcases outer with _ | ⟨segment, _ | ⟨next, outer⟩⟩
    · cases hinner
    · cases hinner
      refine ⟨_, find, type, fun hnil => ?_, fun _ => given⟩
      subst hnil
      cases hrest
    · rw [List.cons_append, List.cons_append, List.cons.injEq, List.cons.injEq] at hinner
      obtain ⟨rfl, rfl, hbelow⟩ := hinner
      obtain ⟨array, hfound, htype, hlast, hgiven⟩ := ih hbelow
      refine ⟨array, Schema.along?_cons_of_shape find shape hfound, htype, hlast, ?_⟩
      simpa [FieldPath.field, FieldPath.item] using hgiven

/-- A name right behind another is that of a field in an object that the schema declares there. -/
theorem object_of_field (h : Leads input place fields inner check) {outer rest : FieldPath}
    {name next : String} (hinner : inner = outer ++ .field name :: .field next :: rest) :
    ∃ object, Schema.along? (FieldPath.names (outer ++ [.field name])) fields = some object ∧
      object.type = .object := by
  induction h generalizing outer with
  | value find | item find type =>
    rcases outer with _ | ⟨segment, _ | ⟨next, outer⟩⟩ <;> simp at hinner
  | inObject find type shape _ ih =>
    rcases outer with _ | ⟨segment, outer⟩
    · cases hinner
      exact ⟨_, find, type⟩
    · rw [List.cons_append, List.cons.injEq] at hinner
      obtain ⟨rfl, hbelow⟩ := hinner
      obtain ⟨object, hfound, htype⟩ := ih hbelow
      exact ⟨object, Schema.along?_cons_of_shape find shape hfound, htype⟩
  | inItem find type shape _ _ ih =>
    rcases outer with _ | ⟨segment, _ | ⟨next, outer⟩⟩
    · cases hinner
    · cases hinner
    · rw [List.cons_append, List.cons_append, List.cons.injEq, List.cons.injEq] at hinner
      obtain ⟨rfl, rfl, hbelow⟩ := hinner
      obtain ⟨object, hfound, htype⟩ := ih hbelow
      exact ⟨object, Schema.along?_cons_of_shape find shape hfound, htype⟩

end Leads

end Leads

end Validation

namespace Schema

open Validation
open Text (withoutBrackets)

variable {schema : Schema} {input : Data} {check : Check} {error : ValidationError}
  {given : List (String × Data)}

/-- Whether the names of fields at every depth are distinct, and can stand in the text of a path. -/
def HasPlainNames (fields : List (String × Field)) : Prop :=
  NamesHold (fun names => names.Nodup ∧ ∀ name ∈ names, FieldPath.IsPlain name) fields

instance (fields : List (String × Field)) : Decidable (HasPlainNames fields) :=
  inferInstanceAs (Decidable (NamesHold _ fields))

/-- All checks of an object, in the order in which they are made. -/
def checks (schema : Schema) (input : Data) : List Check := checksBelow input [] schema

/-- Whether a path has the number of an item behind every array on its way, and behind nothing else:
an item that the data has there. -/
structure NumbersItems (schema : Schema) (input : Data) (path : FieldPath) : Prop where
  items : ∀ outer number rest, path = outer ++ .item number :: rest → ∃ array items,
    schema.along? (FieldPath.names outer) = some array ∧ array.type = .objectArray ∧
      input.valueAt? outer = some (.arr items) ∧ number < items.length
  objects : ∀ outer name next rest, path = outer ++ .field name :: .field next :: rest → ∃ object,
    schema.along? (FieldPath.names (outer ++ [.field name])) = some object ∧ object.type = .object

theorem refusal?_validate (schema : Schema) (given : List (String × Data)) :
    refusal? (schema.validate (.obj given)) =
      (schema.checks (.obj given)).findSome? (Check.error? (.obj given)) := by
  rw [checks, ← refusesFirst schema (.obj given) [] (.obj given) fun name => (Option.bind_fun_some _).symm]
  exact refusal?_bind_of_none fun _ => rfl

theorem validate_eq_error_iff : schema.validate (.obj given) = .error error ↔
    ∃ before check after, schema.checks (.obj given) = before ++ check :: after ∧
      check.error? (.obj given) = some error ∧ ∀ earlier ∈ before, earlier.error? (.obj given) = none := by
  rw [← refusal?_eq_some_iff, refusal?_validate, List.findSome?_eq_some_iff]

/-- A check that fails stands where the text of its path says. -/
theorem exists_path_of_check (hplain : HasPlainNames schema) (hmem : check ∈ schema.checks input)
    (herror : check.error? input = some error) :
    error.path = check.path ∧ schema.lookup? (withoutBrackets error.path.render) = some check.field ∧
      NumbersItems schema input error.path := by
  obtain ⟨fault, hfault, rfl⟩ := Option.map_eq_some_iff.mp herror
  obtain ⟨inner, hleads⟩ := exists_leads (fun _ h => h.1) schema hplain [] hmem
  have hpath : check.path = inner := hleads.path_eq
  have hnames : ∀ name ∈ FieldPath.names inner, FieldPath.IsPlain name := by
    intro name hname
    obtain ⟨declared, hdeclared, hmem⟩ := hleads.exists_mem_names hplain name hname
    exact hdeclared.2 name hmem
  refine ⟨rfl, ?_, ?_⟩
  · show schema.lookup? (withoutBrackets check.path.render) = _
    rw [hpath, lookup?_withoutBrackets_render hleads.names_ne_nil hnames hleads.startsWithName]
    exact hleads.along?_names
  · show NumbersItems schema input check.path
    rw [hpath]
    refine ⟨fun outer number rest hinner => ?_, fun outer name next rest hinner =>
      hleads.object_of_field hinner⟩
    obtain ⟨array, hfound, htype, hlast, hgiven⟩ := hleads.array_of_item hinner
    have hthere : (input.valueAt? (FieldPath.item outer number)).isSome = true := by
      by_cases hrest : rest = []
      · -- what fails at the end is an item that is there and is no object
        subst hrest
        have hplace : check.path = FieldPath.item outer number := hpath.trans hinner
        rw [Check.fault?, hlast rfl, if_pos rfl, hplace] at hfault
        cases hvalue : input.valueAt? (FieldPath.item outer number) with
        | none =>
          rw [hvalue] at hfault
          cases hfault
        | some value => rfl
      · exact hgiven hrest
    obtain ⟨items, hitems, hnumber⟩ := Data.exists_arr_of_isSome hthere
    exact ⟨array, items, hfound, htype, hitems, hnumber⟩

/-- **The first failure, and where it is.** An object is refused with the error of the first check
that fails. The text of its path without the numbers leads to the field that fails, the numbers are
those of the items around it, and the error is the same for all other data in which this check and
those before it see the same. -/
theorem validate_first_error (hplain : HasPlainNames schema)
    (h : schema.validate (.obj given) = .error error) :
    ∃ before check after, schema.checks (.obj given) = before ++ check :: after ∧
      (∀ earlier ∈ before, earlier.error? (.obj given) = none) ∧ check.error? (.obj given) = some error ∧
      schema.lookup? (withoutBrackets error.path.render) = some check.field ∧
      NumbersItems schema (.obj given) error.path ∧
      ∀ others, (∀ seen ∈ before ++ [check], seen.sees (.obj others) = seen.sees (.obj given)) →
        schema.validate (.obj others) = .error error := by
  obtain ⟨before, check, after, hchecks, herror, hbefore⟩ := validate_eq_error_iff.mp h
  have hmem : check ∈ schema.checks (.obj given) := by simp [hchecks]
  obtain ⟨-, hlookup, hnumbers⟩ := exists_path_of_check hplain hmem herror
  refine ⟨before, check, after, hchecks, hbefore, herror, hlookup, hnumbers, fun others hsees => ?_⟩
  rw [List.forall_mem_append, List.forall_mem_singleton] at hsees
  have hfollows := follows_checksBelow (.obj given) (.obj others) schema []
  rw [← checks, hchecks] at hfollows
  obtain ⟨more, hothers⟩ := hfollows.exists_append hsees.1
  refine validate_eq_error_iff.mpr ⟨before, check, more, hothers, ?_, fun earlier hearlier => ?_⟩
  · rw [error?_of_sees hsees.2, herror]
  · rw [error?_of_sees (hsees.1 earlier hearlier), hbefore earlier hearlier]

/-- The unit of the second line; what comes behind it is of no interest. -/
theorem validate_first_error_secondLine :
    let schema : Schema := [
      ("lines", .ofArray [("unit", (Field.ofChoice ["C62", "KGM"]).withKey "BT-130")]),
      ("paid", .ofValidator (.boolean "boolean"))]
    let lines : Data := .arr [.obj [("unit", .str "KGM")], .obj [("unit", .str "cm")], .str "C62"]
    let given : List (String × Data) := [("paid", .str "soon"), ("lines", lines)]
    let error : ValidationError :=
      { path := [.field "lines", .item 1, .field "unit"], fault := .notMember (.str "cm"),
        key := some "BT-130" }
    HasPlainNames schema ∧ schema.validate (.obj given) = .error error ∧ error.path.render = "lines[1].unit" ∧
      NumbersItems schema (.obj given) error.path ∧
      ∃ before check after, schema.checks (.obj given) = before ++ check :: after ∧
        check.error? (.obj given) = some error ∧ schema.lookup? "lines.unit" = some check.field := by
  intro schema lines given error
  have hplain : HasPlainNames schema := by decide +kernel
  have hrefused : schema.validate (.obj given) = .error error := by rfl
  have htext : error.path.render = "lines[1].unit" := by decide +kernel
  have hwithout : withoutBrackets error.path.render = "lines.unit" := by decide +kernel
  obtain ⟨before, check, after, hchecks, -, herror, hlookup, hnumbers, -⟩ :=
    validate_first_error hplain hrefused
  exact ⟨hplain, hrefused, htext, hnumbers, before, check, after, hchecks, herror, hwithout ▸ hlookup⟩

/-- **The business term of an error.** An error for what a validator or a choice refuses names the
business term of the field at its path; one for data of the wrong kind, or a field of an invalid
type, names none. -/
theorem key_of_error (hplain : HasPlainNames schema) (h : schema.validate input = .error error)
    (hpath : error.path.render ≠ "") :
    ∃ field, schema.lookup? (withoutBrackets error.path.render) = some field ∧
      error.key = if error.fault.namesTerm then field.key else none := by
  cases input with
  | null | bool _ | num _ | str _ | arr _ =>
    obtain rfl := Except.error.inj h
    exact absurd rfl hpath
  | obj given =>
    obtain ⟨before, check, after, hchecks, herror, -⟩ := validate_eq_error_iff.mp h
    obtain ⟨-, hlookup, -⟩ := exists_path_of_check hplain (by simp [hchecks]) herror
    obtain ⟨fault, -, rfl⟩ := Option.map_eq_some_iff.mp herror
    exact ⟨check.field, hlookup, rfl⟩

/-- The unit of a line is refused with its business term. -/
theorem key_of_error_unit :
    let schema : Schema := [("line", .ofObject [("unit", (Field.ofChoice ["C62", "KGM"]).withKey "BT-130")])]
    let input : Data := .obj [("line", .obj [("unit", .str "cm")])]
    let error : ValidationError :=
      { path := [.field "line", .field "unit"], fault := .notMember (.str "cm"), key := some "BT-130" }
    HasPlainNames schema ∧ schema.validate input = .error error ∧ error.path.render ≠ "" ∧
      ∃ field, schema.lookup? (withoutBrackets error.path.render) = some field ∧
          field.key = some "BT-130" := by
  intro schema input error
  have hplain : HasPlainNames schema := by decide +kernel
  have hrefused : schema.validate input = .error error := by rfl
  have hpath : error.path.render ≠ "" := by decide +kernel
  obtain ⟨field, hlookup, hkey⟩ := key_of_error hplain hrefused hpath
  exact ⟨hplain, hrefused, hpath, field, hlookup, hkey.symm⟩

/-- A text in the place of an object with a business term is refused without it. -/
theorem not_key_of_wrongKind :
    ¬ ∀ (schema : Schema) (input : Data) (error : ValidationError), HasPlainNames schema →
      schema.validate input = .error error → error.path.render ≠ "" →
        ∃ field, schema.lookup? (withoutBrackets error.path.render) = some field ∧ error.key = field.key := by
  intro hall
  let seller : Field := (Field.ofObject []).withKey "BG-4"
  let error : ValidationError := { path := [.field "seller"], fault := .notObject }
  have hplain : HasPlainNames [("seller", seller)] := by decide +kernel
  have hpath : error.path.render ≠ "" := by decide +kernel
  have hnames : ∀ name ∈ error.path.names, FieldPath.IsPlain name := by decide +kernel
  obtain ⟨field, hlookup, hkey⟩ :=
    hall [("seller", seller)] (.obj [("seller", .str "s")]) error hplain rfl hpath
  have hfound : lookup? (withoutBrackets error.path.render) [("seller", seller)] = some seller :=
    lookup?_withoutBrackets_render (by decide) hnames trivial _
  obtain rfl : seller = field := Option.some.inj (hfound.symm.trans hlookup)
  cases hkey

end Schema

end InvoiceXml
