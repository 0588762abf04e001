import InvoiceXml.Proofs.Assembly.Placement
import InvoiceXml.Proofs.Assembly.Visit

/-!
# Documents and their write lists

Planning carries writes, frames and failures through one recursion. Here it is shown to give, where it
succeeds, exactly the flat list `writeList`, and so a document is described by that list alone.

* `planFields_eq`: planning the fields of an object is planning its visits one after the other, and leaves the
  frame of `frameAfterFields`;
* `done?_plan`: so planning a document succeeds iff all writes of its visits exist, and plans these writes;
* **`document_of_writeList`**: elements, texts and attributes of an assembled document in terms of the list.
-/

namespace InvoiceXml

namespace Planned

/-- What a run planned and gave, if it came to its end. -/
def done? {α : Type} (run : Planned α) : Option (List Write × α) :=
  match run.result with
  | .ok a => some (run.writes, a)
  | .error _ => none

theorem done?_bind {α β : Type} (run : Planned α) (next : α → Planned β) :
    (run >>= next).done? =
      run.done?.bind fun first => (next first.2).done?.map fun second => (first.1 ++ second.1, second.2) := by
  show (bind run next).done? = _
  obtain ⟨writes, result⟩ := run
  cases result with
  | error error => rfl
  | ok a =>
    show (match (next a).result with
      | .ok b => some (writes ++ (next a).writes, b)
      | .error _ => none) = (next a).done?.map fun second => (writes ++ second.1, second.2)
    rw [done?]
    cases (next a).result <;> rfl

instance : LawfulMonad Planned := LawfulMonad.mk' Planned
  (fun run => by
    obtain ⟨writes, result⟩ := run
    show bind ⟨writes, result⟩ (fun a => value a) = _
    cases result <;> simp [bind, value])
  (fun a next => by
    show bind (value a) next = _
    simp [bind, value])
  (fun run next after => by
    obtain ⟨writes, result⟩ := run
    show bind (bind ⟨writes, result⟩ next) after = bind ⟨writes, result⟩ fun a => bind (next a) after
    cases result with
    | error error => rfl
    | ok a =>
      simp only [bind]
      cases (next a).result <;> simp)

theorem done?_readPath (xpath : String) :
    (ofSchema (SchemaError.readPath xpath)).done? = (Path.read xpath).toOption.map fun path =>
      ([], path) := by
  rw [SchemaError.readPath]
  cases Path.read xpath <;> rfl

end Planned

namespace Assembly

open Planned (done?_bind done?_readPath)

/-! ### One field -/

theorem done?_writeAt (bindings : Bindings) (path : Path) (content : Content) :
    (writeAt bindings path content).done? = (writeAt? bindings path content).map fun write =>
      ([write], ()) := by
  rw [writeAt, writeAt?]
  cases path.resolve bindings with
  | error error => rfl
  | ok way =>
    cases way with
    | nil => rfl
    | cons step way => rfl

theorem done?_place (bindings : Bindings) (path : Path) (text : String) :
    (place bindings path text).done? =
      (writeAt? bindings path (textContent path text)).map fun write => ([write], ()) := by
  rw [place, ← done?_writeAt]
  rfl

theorem done?_resolveExtra (fieldPath xpath : String) (owner : Option Path) :
    (Planned.ofSchema (GroupIndex.resolveExtra fieldPath xpath owner)).done? =
      (GroupIndex.extraPath? owner xpath).map fun path => ([], path) := by
  cases hresolve : GroupIndex.resolveExtra fieldPath xpath owner with
  | ok path =>
    rw [GroupIndex.resolveExtra_eq_ok.mp hresolve]
    rfl
  | error error =>
    cases hextra : GroupIndex.extraPath? owner xpath with
    | none => rfl
    | some path =>
      rw [GroupIndex.resolveExtra_eq_ok.mpr hextra] at hresolve
      cases hresolve

theorem done?_planExtras (bindings : Bindings) (path : FieldPath) (owner : Option Path) (value : Data)
    (extras : List (String × ExtraValue)) :
    (planExtras bindings path owner value extras).done? =
      (extraWrites? bindings owner value extras).map fun writes => (writes, ()) := by
  induction extras with
  | nil => rfl
  | cons entry rest ih =>
    obtain ⟨xpath, extra⟩ := entry
    rw [planExtras, extraWrites?]
    cases extra.render value with
    | none =>
      simp only [ih, Option.bind_eq_bind, Option.bind_some]
      cases extraWrites? bindings owner value rest <;> simp
    | some text =>
      simp only [done?_bind, done?_resolveExtra, ih, Option.bind_eq_bind]
      cases GroupIndex.extraPath? owner xpath with
      | none => simp
      | some target =>
        simp only [Option.map_some, Option.bind_some, done?_place]
        cases writeAt? bindings target (textContent target text) with
        | none => simp
        | some write => cases extraWrites? bindings owner value rest <;> simp

theorem done?_planScalar (bindings : Bindings) (path : FieldPath) (xpath : Option String)
    (extras : List (String × ExtraValue)) (resolved : Option Data) :
    (planScalar bindings path xpath extras resolved).done? =
      (match resolved with
        | none => some []
        | some data => do
          let text ← scalarText data
          fieldWrites? bindings xpath extras (textContent · text) data).map fun writes => (writes, ()) := by
  cases resolved with
  | none => rfl
  | some data =>
    simp only [planScalar, Option.bind_eq_bind]
    cases scalarText data with
    | none => rfl
    | some text =>
      cases xpath with
      | none => exact done?_planExtras bindings path none data extras
      | some xpath =>
        simp only [fieldWrites?, done?_bind, done?_readPath, done?_place, done?_planExtras,
          Option.bind_eq_bind, Option.bind_some]
        cases (Path.read xpath).toOption with
        | none => simp
        | some owner =>
          simp only [Option.map_some, Option.bind_some]
          cases writeAt? bindings owner (textContent owner text) with
          | none => simp
          | some own => cases extraWrites? bindings (some owner) data extras <;> simp

theorem done?_planObject (bindings : Bindings) (path : FieldPath) (xpath : Option String)
    (extras : List (String × ExtraValue)) (data : Data) :
    (planObject bindings path xpath extras data).done? =
      (if xpath.isNone then some []
        else fieldWrites? bindings xpath extras (fun _ => .touch) data).map fun writes => (writes, ()) := by
  cases xpath with
  | none => rfl
  | some xpath =>
    simp only [planObject, fieldWrites?, done?_bind, done?_readPath, done?_writeAt, done?_planExtras,
      Option.bind_eq_bind, Option.isNone_some, Bool.false_eq_true, if_false]
    cases (Path.read xpath).toOption with
    | none => simp
    | some owner =>
      simp only [Option.map_some, Option.bind_some]
      cases writeAt? bindings owner .touch with
      | none => simp
      | some own => cases extraWrites? bindings (some owner) data extras <;> simp

/-- Planning a visit plans its writes. -/
theorem done?_plan_visit (visit : Visit) :
    visit.plan.done? = visit.writes?.map fun writes => (writes, ()) := by
  obtain ⟨path, field, value, bindings⟩ := visit
  rw [Visit.plan, Visit.writes?]
  cases htype : field.type with
  | scalar _ | choice _ => exact done?_planScalar _ _ _ _ _
  | object =>
    cases hshape : field.shape with
    | none => rfl
    | some fields => exact done?_planObject _ _ _ _ _
  | objectArray => rfl

theorem done?_planVisits (all : List Visit) :
    (planVisits all).done? = (writesOf all).map fun writes => (writes, ()) := by
  induction all with
  | nil => rfl
  | cons visit rest ih =>
    rw [planVisits, writesOf, done?_bind, done?_plan_visit, ih, Option.bind_eq_bind]
    cases visit.writes? with
    | none => rfl
    | some own => cases writesOf rest <;> rfl

/-! ### All fields -/

theorem planVisits_append (first second : List Visit) :
    planVisits (first ++ second) = planVisits first >>= fun _ => planVisits second := by
  induction first with
  | nil => simp [planVisits]
  | cons visit rest ih => simp only [List.cons_append, planVisits, ih, bind_assoc]

theorem planShared_eq {plan : FieldPath → Data → Frame → Planned Frame}
    {visits : FieldPath → Data → Frame → List Visit} {after : Data → Frame → Frame}
    (hplan : ∀ path item frame,
      plan path item frame = planVisits (visits path item frame) >>= fun _ => pure (after item frame))
    (path : FieldPath) (number : Nat) (items : List Data) (frame : Frame) :
    planShared plan path number items frame =
      planVisits (sharedVisits visits after path number items frame) >>= fun _ =>
        pure (items.foldl (fun frame item => after (itemData item) frame) frame) := by
  induction items generalizing number frame with
  | nil => simp [planShared, sharedVisits, planVisits]
  | cons item rest ih =>
    simp only [planShared, sharedVisits, planVisits_append, hplan, ih, bind_assoc, pure_bind, List.foldl_cons]

theorem planBound_eq {plan : FieldPath → Data → Nat → Planned Frame}
    {visits : FieldPath → Data → Nat → List Visit} {after : Data → Frame}
    (hplan : ∀ path item bound,
      plan path item bound = planVisits (visits path item bound) >>= fun _ => pure (after item))
    (path : FieldPath) (first number : Nat) (items : List Data) :
    planBound plan path first number items = planVisits (boundVisits visits path first number items) := by
  induction items generalizing number with
  | nil => rfl
  | cons item rest ih =>
    simp only [planBound, boundVisits, planVisits_append, hplan, ih, bind_assoc, pure_bind]

mutual

/-- Planning a field is planning its visits. -/
theorem planField_eq (groups : GroupIndex) (bindings : Bindings) (path : FieldPath) (value : Option Data) :
    ∀ (field : Field) (frame : Frame),
      planField groups bindings path value field frame =
        planVisits (visitsOfField groups bindings path value field frame) >>= fun _ =>
          pure (frameAfterField groups value field frame)
  | { type, required, shape, key, group, sibling, xpath, extras, transform, fallback }, frame => by
    cases type with
    | scalar _ | choice _ =>
      simp [planField, visitsOfField, frameAfterField, planVisits, Visit.plan, Field.extraEntries]
    | object =>
      cases shape with
      | none => simp [planField, visitsOfField, frameAfterField, planVisits, Visit.plan]
      | some fields =>
        simp [planField, visitsOfField, frameAfterField, planVisits, Visit.plan, Field.extraEntries,
          planFields_eq groups bindings path (value.getD (.obj [])) fields frame]
    | objectArray =>
      cases shape with
      | none => simp [planField, visitsOfField, frameAfterField, planVisits, Visit.plan]
      | some fields =>
        cases group with
        | none =>
          have hitems := planShared_eq (fun path item frame =>
            planFields_eq groups bindings path item fields frame) path 0 (itemsOf value) frame
          simp [planField, visitsOfField, frameAfterField, planVisits, Visit.plan, hitems]
        | some group =>
          have hitems := planBound_eq (fun path item bound =>
            planFields_eq groups ((group, bound) :: bindings) path item fields []) path
            (base groups group frame) 0 (itemsOf value)
          simp [planField, visitsOfField, frameAfterField, planVisits, Visit.plan, hitems]

/-- **Planning is flat.** Planning the fields of an object is planning their visits one after the
other, failures included, and leaves the frame of `frameAfterFields`. -/
theorem planFields_eq (groups : GroupIndex) (bindings : Bindings) (path : FieldPath) (data : Data) :
    ∀ (fields : List (String × Field)) (frame : Frame),
      planFields groups bindings path data fields frame =
        planVisits (visitsOfFields groups bindings path data fields frame) >>= fun _ =>
          pure (frameAfterFields groups data fields frame)
  | [], frame => rfl
  | (name, field) :: rest, frame => by
    simp only [planFields, visitsOfFields, frameAfterFields, planVisits_append,
      planField_eq groups bindings (path.field name) (data.present? name) field frame,
      planFields_eq groups bindings path data rest, bind_assoc, pure_bind]

end

/-- A plan is that of the leading texts and of all visits. -/
theorem plan_eq (composed : ComposedSchema) (leading : List (String × String)) (data : Data) :
    plan composed leading data = planLeading leading >>= fun _ => planVisits (visits composed data) := by
  simp only [plan, visits, planFields_eq, bind_assoc, pure_bind, bind_pure_unit]

/-! ### The document -/

theorem done?_planLeading (leading : List (String × String)) :
    (planLeading leading).done? = (leadingWrites? leading).map fun writes => (writes, ()) := by
  induction leading with
  | nil => rfl
  | cons entry rest ih =>
    obtain ⟨xpath, text⟩ := entry
    simp only [planLeading, leadingWrites?, done?_bind, done?_readPath, done?_place, ih, Option.bind_eq_bind]
    cases (Path.read xpath).toOption with
    | none => rfl
    | some path =>
      simp only [Option.map_some, Option.bind_some]
      cases writeAt? [] path (textContent path text) with
      | none => rfl
      | some write => cases leadingWrites? rest <;> simp

/-- A plan succeeds iff every write of the list exists, and then plans this list. -/
theorem done?_plan (composed : ComposedSchema) (leading : List (String × String)) (data : Data) :
    (plan composed leading data).done? = (writeList composed leading data).map fun writes =>
      (writes, ()) := by
  rw [plan_eq, writeList, done?_bind, done?_planLeading, Option.bind_eq_bind]
  cases leadingWrites? leading with
  | none => rfl
  | some first =>
    simp only [Option.map_some, Option.bind_some, done?_planVisits]
    cases writesOf (visits composed data) <;> rfl

variable {composed : ComposedSchema} {options : AssemblyOptions} {data : Data} {document : Document}

/-- An assembled document is what the write list leaves when it is placed. -/
theorem placeAll_writeList (h : assemble composed options data = .ok document) :
    ∃ writes, writeList composed options.leading data = some writes ∧
      placeAll options.namespaces writes (options.root.map (newRoot options.namespaces)) =
        .ok (some document.root) := by
  have hplan := done?_plan composed options.leading data
  simp only [assemble, bind, Except.bind] at h
  split at h
  · cases h
  · rename_i root hplace
    cases hresult : (plan composed options.leading data).result with
    | error error =>
      rw [hresult] at h
      cases h
    | ok done =>
      rw [hresult] at h
      rw [Planned.done?, hresult] at hplan
      obtain ⟨writes, hwrites, hsame⟩ := Option.map_eq_some_iff.mp hplan.symm
      obtain rfl : writes = (plan composed options.leading data).writes := congrArg Prod.fst hsame
      refine ⟨_, hwrites, ?_⟩
      rw [hplace]
      cases root with
      | none => cases h
      | some root =>
        obtain rfl : ({ root, metadata := options.metadata } : Document) = document := Except.ok.inj h
        rfl

/-- Where every write of the list exists, what placing them leaves is assembled. -/
theorem assemble_eq_ok {writes : List Write} {root : Element}
    (hwrites : writeList composed options.leading data = some writes)
    (hplace : placeAll options.namespaces writes (options.root.map (newRoot options.namespaces)) =
      .ok (some root)) :
    assemble composed options data = .ok { root, metadata := options.metadata } := by
  have hplan := done?_plan composed options.leading data
  rw [hwrites, Option.map_some, Planned.done?] at hplan
  cases hresult : (plan composed options.leading data).result with
  | error error =>
    rw [hresult] at hplan
    cases hplan
  | ok done =>
    rw [hresult] at hplan
    have hsame : (plan composed options.leading data).writes = writes :=
      congrArg Prod.fst (Option.some.inj hplan)
    rw [← hsame] at hplace
    simp only [assemble, bind, Except.bind, hplace, hresult]

/-- **A document is its write list, the last write winning.** Every write of the list exists. An
address other than the root's exists iff one of them passes it; the text of an element is the one
written to it last, if there is one; and its attributes are those written to it, each with the last
value, where the root has the namespaces declared on it first. -/
theorem document_of_writeList (h : assemble composed options data = .ok document) :
    ∃ writes, writeList composed options.leading data = some writes ∧
      (∀ address, address ≠ [(document.root.name, 0)] →
        ((document.at? address).isSome = true ↔
          ∃ write ∈ writes, Element.Passes write.address address)) ∧
      ∀ address element, document.at? address = some element →
        element.text = lastText writes address ∧
          ∀ key value, (key, value) ∈ element.attrs ↔
            lastAttr options.namespaces writes address key = some value := by
  obtain ⟨writes, hwrites, hplace⟩ := placeAll_writeList h
  obtain ⟨hroot, hall⟩ := placeAll_eq_ok hplace
  refine ⟨writes, hwrites, isSome_at?_withWrites hroot hall, ?_⟩
  intro address element hat
  exact ⟨text_at?_withWrites hroot hall hat, mem_attrs_at?_withWrites hroot hall hat⟩

/-- Two groups that share the notes of a document, and a title that is written twice. -/
def titledNotes : ComposedSchema where
  schema := [
    ("title", (Field.ofChoice ["draft"]).placedAt "/doc/title"),
    ("notes", (Field.ofArray [("text", (Field.ofChoice ["a", "b"]).placedAt "/doc/note[notes]/text")]).inGroup
      "notes"),
    ("remarks", ((Field.ofArray [
      ("text", ((Field.ofChoice ["c"]).placedAt "/doc/note[remarks]/text").withExtra "@kind"
        (.text "remark"))]).inGroup
        "remarks").after "notes"),
    ("state", { (Field.ofChoice ["final"]).placedAt "/doc/title" with fallback := some (.str "final") })]
  groups := ⟨[
    ⟨"notes", "notes", [], none, ["notes.text"]⟩,
    ⟨"remarks", "remarks", [], some "notes", ["remarks.text"]⟩]⟩

/-- Data with a title, two notes and a remark. -/
def titledNotesData : Data :=
  .obj [("title", .str "draft"), ("notes", .arr [.obj [("text", .str "a")], .obj [("text", .str "b")]]),
    ("remarks", .arr [.obj [("text", .str "c")]])]

theorem document_of_writeList_titledNotes :
    ∃ document, assemble titledNotes {} titledNotesData = .ok document ∧
      ∃ writes, writeList titledNotes [] titledNotesData = some writes ∧
        (∀ address, address ≠ [(document.root.name, 0)] →
          ((document.at? address).isSome = true ↔
            ∃ write ∈ writes, Element.Passes write.address address)) ∧
        ∀ address element, document.at? address = some element →
          element.text = lastText writes address ∧
            ∀ key value, (key, value) ∈ element.attrs ↔ lastAttr [] writes address key = some value := by
  have hok : (assemble titledNotes {} titledNotesData).toOption.isSome = true := by decide +kernel
  cases h : assemble titledNotes {} titledNotesData with
  | error error =>
    rw [h] at hok
    cases hok
  | ok document => exact ⟨document, rfl, document_of_writeList h⟩

end Assembly

end InvoiceXml
