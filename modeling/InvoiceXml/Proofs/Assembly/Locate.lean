import InvoiceXml.Proofs.Assembly.Scope
import Mathlib.Data.List.Basic
import Mathlib.Data.List.Nodup

/-!
# Locating visits

Each visit carries the names of the field it is a visit of. Where no name is declared twice, the
names alone lead from an object to the field, the item or the inner object in which the visit is
found.

* `below_of_mem_visitsOfFields`: visits stay below the object they are visits of, and keep what is
  bound there;
* **`mem_visitsOfField_of_names`**: a visit below a field is one of this field, at the frame that
  the fields before it leave;
* `mem_visits_scalar`, `mem_visits_object`, `mem_visits_bound` and `mem_visits_flat`: what the
  visits of a scalar, of an object, of an array with a group and of fields without shapes are.
-/

namespace InvoiceXml.Assembly

variable {groups : GroupIndex} {bindings : Bindings} {path : FieldPath} {value : Option Data} {name : String}
  {field : Field} {fields below : List (String × Field)} {frame : Frame} {data : Data} {visit : Visit}

/-! ### Names and bindings -/

/-- What is bound around a field stays bound inside it. -/
theorem Inside.bindings_suffix {innerBindings : Bindings} {innerPath : FieldPath} {innerData : Data}
    {innerFrame : Frame}
    (h : Inside groups bindings path value field frame innerBindings innerPath innerData innerFrame) :
    bindings <:+ innerBindings := by
  cases h with
  | object | shared => exact List.suffix_rfl
  | bound => exact List.suffix_cons _ _

/-- Visits stay below the object they are visits of, and keep what is bound there. -/
theorem below_of_mem_visitsOfFields :
    ∀ (fields : List (String × Field)) {bindings : Bindings} {path : FieldPath} {data : Data}
      {frame : Frame} {visit : Visit}, visit ∈ visitsOfFields groups bindings path data fields frame →
      (∃ name ∈ fields.map (·.1), path.names ++ [name] <+: visit.path.names) ∧
        bindings <:+ visit.bindings := by
  refine Schema.induction_on_shapes fun fields ih => ?_
  intro bindings path data frame visit h
  obtain ⟨before, name, field, after, rfl, hvisit⟩ := mem_visitsOfFields.mp h
  have hmem : (name, field) ∈ before ++ (name, field) :: after := by simp
  have hname : name ∈ (before ++ (name, field) :: after).map (·.1) := List.mem_map_of_mem (f := (·.1)) hmem
  rcases mem_visitsOfField.mp hvisit with rfl | ⟨below, hshape, _, innerPath, _, _, hinside, hinner⟩
  · have hnames : (path.field name).names = path.names ++ [name] := FieldPath.names_field path name
    exact ⟨⟨name, hname, hnames ▸ List.prefix_rfl⟩, List.suffix_rfl⟩
  · obtain ⟨⟨inner, -, hunder⟩, hsuffix⟩ := ih name field below hmem hshape hinner
    rw [hinside.names, FieldPath.names_field] at hunder
    exact ⟨⟨name, hname, (List.prefix_append _ _).trans hunder⟩, hinside.bindings_suffix.trans hsuffix⟩

/-- The visits of a field have its names before theirs. -/
theorem names_prefix_of_mem_visitsOfField (h : visit ∈ visitsOfField groups bindings path value field frame) :
    path.names <+: visit.path.names := by
  rcases mem_visitsOfField.mp h with rfl | ⟨below, -, _, innerPath, _, _, hinside, hinner⟩
  · exact List.prefix_rfl
  · obtain ⟨⟨inner, -, hunder⟩, -⟩ := below_of_mem_visitsOfFields below hinner
    rw [hinside.names] at hunder
    exact (List.prefix_append _ _).trans hunder

/-! ### From names to visits -/

/-- **A visit below a field is one of this field**, if no name is declared twice. -/
theorem mem_visitsOfField_of_names {before after : List (String × Field)}
    (hdistinct : (fields.map (·.1)).Nodup) (hfields : fields = before ++ (name, field) :: after)
    (h : visit ∈ visitsOfFields groups bindings path data fields frame)
    (hnames : path.names ++ [name] <+: visit.path.names) :
    visit ∈ visitsOfField groups bindings (path.field name) (data.present? name) field
      (frameAfterFields groups data before frame) := by
  obtain ⟨others, other, found, rest, hothers, hvisit⟩ := mem_visitsOfFields.mp h
  -- both names are the first below the object
  have hother := names_prefix_of_mem_visitsOfField hvisit
  rw [FieldPath.names_field] at hother
  have hsame : path.names ++ [other] = path.names ++ [name] :=
    (List.prefix_of_prefix_length_le hother hnames (by simp)).eq_of_length (by simp)
  obtain rfl : other = name := List.singleton_inj.mp (List.append_cancel_left hsame)
  have hnew : other ∉ (before ++ after).map (·.1) := by
    rw [hfields, List.map_append, List.map_cons, List.nodup_middle, List.nodup_cons] at hdistinct
    rw [List.map_append]
    exact hdistinct.1
  rw [hfields, List.append_cons_inj_of_notMem] at hothers
  · obtain ⟨rfl, hfield, -⟩ := hothers
    obtain ⟨-, rfl⟩ := Prod.mk.inj hfield
    exact hvisit
  · exact fun hmem => hnew (List.mem_map.mpr ⟨_, List.mem_append_left _ hmem, rfl⟩)
  · exact fun hmem => hnew (List.mem_map.mpr ⟨_, List.mem_append_right _ hmem, rfl⟩)

/-- The visit of a field of an object. -/
def fieldVisit (bindings : Bindings) (path : FieldPath) (data : Data) (name : String)
    (field : Field) : Visit :=
  { path := path.field name, field, value := data.present? name, bindings }

theorem names_fieldVisit (bindings : Bindings) (path : FieldPath) (data : Data) (name : String)
    (field : Field) :
    (fieldVisit bindings path data name field).path.names = path.names ++ [name] :=
  FieldPath.names_field path name

/-- Each field of an object is visited. -/
theorem fieldVisit_mem_visitsOfFields (hmem : (name, field) ∈ fields) :
    fieldVisit bindings path data name field ∈ visitsOfFields groups bindings path data fields frame := by
  obtain ⟨before, after, hfields⟩ := List.append_of_mem hmem
  exact mem_visitsOfFields.mpr ⟨before, name, field, after, hfields, mem_visitsOfField.mpr (.inl rfl)⟩

/-! ### What the visits are -/

theorem mem_visits_scalar (hscalar : field.type.isObjectLike = false) :
    visit ∈ visitsOfField groups bindings path value field frame ↔
      visit = { path, field, value, bindings } := by
  rw [mem_visitsOfField]
  refine or_iff_left ?_
  intro h
  obtain ⟨_, -, _, _, _, _, hinside, -⟩ := h
  cases hinside with
  | object htype | shared htype | bound htype =>
    rw [htype] at hscalar
    cases hscalar

theorem mem_visits_object (htype : field.type = .object) (hshape : field.shape = some below) :
    visit ∈ visitsOfField groups bindings path value field frame ↔
      visit = { path, field, value, bindings } ∨
        visit ∈ visitsOfFields groups bindings path (value.getD (.obj [])) below frame := by
  rw [mem_visitsOfField]
  simp only [hshape, Option.some.injEq, exists_eq_left']
  rw [exists_inside_object htype]

/-- The visits inside an object that is a field of another are those that have a name below it. -/
theorem exists_visits_object (hdistinct : (fields.map (·.1)).Nodup) (hmem : (name, field) ∈ fields)
    (htype : field.type = .object) (hshape : field.shape = some below) :
    ∃ innerFrame, ∀ visit, visit ∈ visitsOfFields groups bindings (path.field name)
      ((data.present? name).getD (.obj [])) below innerFrame ↔
        visit ∈ visitsOfFields groups bindings path data fields frame ∧
          ∃ first, path.names ++ [name] ++ [first] <+: visit.path.names := by
  obtain ⟨before, after, hfields⟩ := List.append_of_mem hmem
  refine ⟨frameAfterFields groups data before frame, fun visit => ⟨fun h => ⟨?_, ?_⟩, ?_⟩⟩
  · refine mem_visitsOfFields.mpr ⟨before, name, field, after, hfields, ?_⟩
    exact (mem_visits_object htype hshape).mpr (.inr h)
  · obtain ⟨⟨first, -, hunder⟩, -⟩ := below_of_mem_visitsOfFields below h
    rw [FieldPath.names_field] at hunder
    exact ⟨first, hunder⟩
  · intro h
    obtain ⟨h, first, hunder⟩ := h
    have hfield := mem_visitsOfField_of_names hdistinct hfields h ((List.prefix_append _ _).trans hunder)
    rcases (mem_visits_object htype hshape).mp hfield with rfl | hinner
    · have hlength := hunder.length_le
      rw [FieldPath.names_field, List.length_append, List.length_singleton] at hlength
      omega
    · exact hinner

/-- The visits of an array with a group are its own and those of its items, which are numbered from
its base. -/
theorem mem_visits_bound {group : String} (htype : field.type = .objectArray)
    (hgroup : field.group = some group) (hshape : field.shape = some below) :
    visit ∈ visitsOfField groups bindings path value field frame ↔
      visit = { path, field, value, bindings } ∨
        ∃ i item, (itemsOf value)[i]? = some item ∧
          visit ∈ visitsOfFields groups ((group, base groups group frame + i) :: bindings) (path.item i)
            (itemData item) below [] := by
  rw [mem_visitsOfField]
  simp only [hshape, Option.some.injEq, exists_eq_left']
  rw [exists_inside_bound htype hgroup]

/-- The visits of fields without shapes are one for each field. -/
theorem mem_visits_flat (hflat : ∀ entry ∈ fields, entry.2.shape = none) :
    visit ∈ visitsOfFields groups bindings path data fields frame ↔
      ∃ name field, (name, field) ∈ fields ∧ visit = fieldVisit bindings path data name field := by
  constructor
  · intro h
    obtain ⟨before, name, field, after, hfields, hvisit⟩ := mem_visitsOfFields.mp h
    have hmem : (name, field) ∈ fields := by simp [hfields]
    rcases mem_visitsOfField.mp hvisit with rfl | ⟨below, hshape, -⟩
    · exact ⟨name, field, hmem, rfl⟩
    · cases (hflat _ hmem).symm.trans hshape
  · intro h
    obtain ⟨name, field, hmem, rfl⟩ := h
    exact fieldVisit_mem_visitsOfFields hmem

/-! ### Frames -/

theorem frameAfterFields_concat (before : List (String × Field)) :
    frameAfterFields groups data (before ++ [(name, field)]) frame =
      frameAfterField groups (data.present? name) field (frameAfterFields groups data before frame) := by
  induction before generalizing frame with
  | nil => rfl
  | cons first rest ih =>
    obtain ⟨other, found⟩ := first
    rw [List.cons_append, frameAfterFields, frameAfterFields, ih]

/-- An array with a group leaves off behind its last item. -/
theorem lookup_frameAfterField_bound {group : String} (htype : field.type = .objectArray)
    (hgroup : field.group = some group) (hshape : field.shape = some below) :
    (frameAfterField groups value field frame).lookup group =
      some (base groups group frame + (itemsOf value).length) := by
  cases field with
  | mk type required shape key group sibling xpath extras transform fallback =>
    obtain rfl : type = .objectArray := htype
    obtain rfl : group = some _ := hgroup
    obtain rfl : shape = some below := hshape
    rw [frameAfterField, Frame.set, List.lookup_cons_self]

end InvoiceXml.Assembly
