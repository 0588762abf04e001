import InvoiceXml.Proofs.Path.Reader
import InvoiceXml.Proofs.Schema.Entry

/-!
# Schemas that compose

Which schemas compose, and what their groups are, said of the entries alone. An entry composes
(`Entry.Composes`) when every path of its field can be read, is absolute in the end, and carries only markers
of groups around it. A group is registered when no group before has its name, and its sibling is one before it
with the same groups around (`registers`).

* **`compose_eq_ok_iff`**: a schema composes iff all its entries do and its groups can be registered in order;
* `bare_groups_of_compose`: the groups of the index are those of the entries, members apart.
-/

namespace InvoiceXml

namespace Path

/-- Whether a path can be placed where the groups in scope are bound. -/
structure PlacedIn (scope : List String) (path : Path) : Prop where
  absolute : path.absolute = true
  steps : path.steps ≠ []
  markers : ∀ marker ∈ path.markers, marker ∈ scope

/-- An absolute path has a root. -/
theorem steps_ne_nil_of_read {text : String} {path : Path} (h : read text = .ok path)
    (habsolute : path.absolute = true) : path.steps ≠ [] := by
  obtain ⟨form, -, rfl⟩ := readChars_eq_ok_iff.mp h
  rw [PathForm.path_eq] at habsolute ⊢
  exact mt List.map_eq_nil_iff.mp (PathForm.steps_ne_nil habsolute)

end Path

namespace GroupIndex

/-- The path of an extra, continued from that of its field where it is relative. -/
def extraPath? (owner : Option Path) (xpath : String) : Option Path := do
  let path ← (Path.read xpath).toOption
  if path.absolute then some path else owner.map (·.join path)

theorem resolveExtra_eq_ok {fieldPath xpath : String} {owner : Option Path} {path : Path} :
    resolveExtra fieldPath xpath owner = .ok path ↔ extraPath? owner xpath = some path := by
  rw [resolveExtra, extraPath?, SchemaError.readPath]
  cases Path.read xpath with
  | error fault => simp [Except.toOption, bind, Except.bind]
  | ok found =>
    simp only [bind, Except.bind, Except.toOption, Option.bind_some]
    split
    · simp
    · cases owner <;> simp

end GroupIndex

/-- The path of a field, if it has one that can be read. -/
def Field.ownPath? (field : Field) : Option Path := field.xpath.bind fun xpath => (Path.read xpath).toOption

namespace Entry

/-- Whether the paths of a field can be placed where it is declared, and only a group follows another. -/
structure Composes (entry : Entry) : Prop where
  own : ∀ xpath, entry.field.xpath = some xpath →
    ∃ path, Path.read xpath = .ok path ∧ path.PlacedIn entry.scope
  extras : ∀ extra ∈ entry.field.extraEntries,
    ∃ path, GroupIndex.extraPath? entry.field.ownPath? extra.1 = some path ∧ path.PlacedIn entry.scope
  sibling : entry.field.sibling.isSome = true → entry.field.boundGroup?.isSome = true

/-- The group that a field binds for the fields of its shape, without members. -/
def group? (entry : Entry) : Option Group :=
  match entry.field.shape, entry.field.boundGroup? with
  | some _, some name =>
    some { name, fieldPath := Schema.dotted entry.names, scope := entry.scope, sibling := entry.field.sibling,
           members := [] }
  | _, _ => none

end Entry

/-- Whether groups can be registered in order after those that are known. -/
def registers (known : List Group) : List Group → Bool
  | [] => true
  | group :: rest =>
    (known.find? fun other => other.name == group.name).isNone &&
      (match group.sibling with
        | none => true
        | some sibling =>
          (known.find? fun other => other.name == sibling).any fun other => other.scope = group.scope) &&
      registers (known ++ [group]) rest

namespace GroupIndex

/-- The groups without their members. -/
def bare (index : GroupIndex) : List Group := index.groups.map fun group => { group with members := [] }

/-! ### The markers of paths -/

theorem bare_addMember (marker fieldPath : String) (index : GroupIndex) :
    (index.addMember marker fieldPath).bare = index.bare := by
  rw [bare, addMember, bare, List.map_map]
  refine List.map_congr_left fun group _ => ?_
  by_cases hname : group.name = marker <;> simp [hname]

theorem addMarkers_eq_ok {xpath : Path} {fieldPath : String} {scope : List String} {index result : GroupIndex}
    (h : index.addMarkers xpath fieldPath scope = .ok result) :
    (∀ marker ∈ xpath.markers, marker ∈ scope) ∧ result.bare = index.bare := by
  rw [addMarkers] at h
  split at h
  · cases h
  · rename_i hnone
    obtain rfl := Except.ok.inj h
    refine ⟨by simpa using hnone, ?_⟩
    clear h hnone
    induction xpath.markers generalizing index with
    | nil => rfl
    | cons marker rest ih => rw [List.foldl_cons, ih, bare_addMember]

theorem exists_addMarkers {xpath : Path} {scope : List String} (fieldPath : String) (index : GroupIndex)
    (h : ∀ marker ∈ xpath.markers, marker ∈ scope) :
    ∃ result, index.addMarkers xpath fieldPath scope = .ok result := by
  have hnone : (xpath.markers.find? fun marker => !scope.contains marker) = none := by
    simpa using h
  rw [addMarkers, hnone]
  exact ⟨_, rfl⟩

/-- Extras are indexed if each can be placed. -/
theorem exists_addExtras_iff {fieldPath : String} {owner : Option Path} {scope : List String}
    {extras : List (String × ExtraValue)} (index : GroupIndex) :
    (∃ result, addExtras fieldPath owner scope extras index = .ok result) ↔
      ∀ extra ∈ extras, ∃ path,
        extraPath? owner extra.1 = some path ∧ ∀ marker ∈ path.markers, marker ∈ scope := by
  induction extras generalizing index with
  | nil => simp [addExtras]
  | cons extra rest ih =>
    obtain ⟨xpath, value⟩ := extra
    rw [List.forall_mem_cons]
    constructor
    · intro h
      obtain ⟨result, h⟩ := h
      obtain ⟨path, hpath, h⟩ := bind_eq_ok.mp h
      obtain ⟨next, hmarkers, h⟩ := bind_eq_ok.mp h
      exact ⟨⟨path, resolveExtra_eq_ok.mp hpath, (addMarkers_eq_ok hmarkers).1⟩, (ih next).mp ⟨result, h⟩⟩
    · intro h
      obtain ⟨⟨path, hpath, hmarkers⟩, hrest⟩ := h
      obtain ⟨next, hnext⟩ := exists_addMarkers fieldPath index hmarkers
      obtain ⟨result, hresult⟩ := (ih next).mpr hrest
      exact ⟨result,
        bind_eq_ok.mpr ⟨path, resolveExtra_eq_ok.mpr hpath, bind_eq_ok.mpr ⟨next, hnext, hresult⟩⟩⟩

theorem bare_of_addExtras {fieldPath : String} {owner : Option Path} {scope : List String}
    {extras : List (String × ExtraValue)} {index result : GroupIndex}
    (h : addExtras fieldPath owner scope extras index = .ok result) : result.bare = index.bare := by
  induction extras generalizing index with
  | nil =>
    obtain rfl := Except.ok.inj h
    rfl
  | cons extra rest ih =>
    obtain ⟨path, -, h⟩ := bind_eq_ok.mp h
    obtain ⟨next, hmarkers, h⟩ := bind_eq_ok.mp h
    rw [ih h, (addMarkers_eq_ok hmarkers).2]

/-! ### The paths of a field -/

theorem addPaths_of_none {fieldPath : String} {field : Field} {scope : List String} (index : GroupIndex)
    (hxpath : field.xpath = none) :
    index.addPaths fieldPath field scope = addExtras fieldPath none scope field.extraEntries index := by
  rw [addPaths, hxpath]
  rfl

theorem addPaths_eq_ok {fieldPath xpath : String} {field : Field} {scope : List String}
    {index result : GroupIndex} (hxpath : field.xpath = some xpath) :
    index.addPaths fieldPath field scope = .ok result ↔
      ∃ path next, Path.read xpath = .ok path ∧ path.absolute = true ∧
        index.addMarkers path fieldPath scope = .ok next ∧
        addExtras fieldPath (some path) scope field.extraEntries next = .ok result := by
  rw [addPaths, hxpath, ownerPath, SchemaError.readPath]
  cases Path.read xpath with
  | error fault => simp [bind, Except.bind]
  | ok path =>
    by_cases habsolute : path.absolute = true
    · cases hmarkers : index.addMarkers path fieldPath scope <;> simp [bind, Except.bind, habsolute, hmarkers]
    · simp [bind, Except.bind, habsolute]

/-- An extra of a field at an absolute path has one, too. -/
theorem absolute_of_extraPath? {owner : Option Path} {xpath : String} {path : Path}
    (h : extraPath? owner xpath = some path)
    (howner : ∀ own, owner = some own → own.absolute = true ∧ own.steps ≠ []) :
    path.absolute = true ∧ path.steps ≠ [] := by
  rw [extraPath?, Option.bind_eq_bind, Option.bind_eq_some_iff] at h
  obtain ⟨found, hread, h⟩ := h
  split at h
  · rename_i habsolute
    obtain rfl := Option.some.inj h
    cases hfound : Path.read xpath with
    | error fault => simp [hfound, Except.toOption] at hread
    | ok other =>
      obtain rfl : other = found := by simpa [hfound, Except.toOption] using hread
      exact ⟨habsolute, Path.steps_ne_nil_of_read hfound habsolute⟩
  · rename_i hrelative
    obtain ⟨own, hown, rfl⟩ := Option.map_eq_some_iff.mp h
    obtain ⟨habsolute, hsteps⟩ := howner own hown
    rw [Path.join, if_neg hrelative]
    exact ⟨habsolute, fun hnil => hsteps (List.append_eq_nil_iff.mp hnil).1⟩

/-- Where the path of a field is absolute, its extras are indexed if each can be placed. -/
theorem exists_addExtras_iff_placedIn {fieldPath : String} {owner : Option Path} {scope : List String}
    {extras : List (String × ExtraValue)} (index : GroupIndex)
    (howner : ∀ own, owner = some own → own.absolute = true ∧ own.steps ≠ []) :
    (∃ result, addExtras fieldPath owner scope extras index = .ok result) ↔
      ∀ extra ∈ extras, ∃ path, extraPath? owner extra.1 = some path ∧ path.PlacedIn scope := by
  rw [exists_addExtras_iff]
  refine forall₂_congr fun extra _ => exists_congr fun path => and_congr_right fun hpath => ?_
  obtain ⟨habsolute, hsteps⟩ := absolute_of_extraPath? hpath howner
  exact ⟨fun hmarkers => ⟨habsolute, hsteps, hmarkers⟩, fun hplaced => hplaced.markers⟩

theorem exists_addPaths_iff (fieldPath : String) (field : Field) (scope : List String) (index : GroupIndex) :
    (∃ result, index.addPaths fieldPath field scope = .ok result) ↔
      (∀ xpath, field.xpath = some xpath → ∃ path, Path.read xpath = .ok path ∧ path.PlacedIn scope) ∧
        ∀ extra ∈ field.extraEntries,
          ∃ path, extraPath? field.ownPath? extra.1 = some path ∧ path.PlacedIn scope := by
  cases hxpath : field.xpath with
  | none =>
    have hown : field.ownPath? = none := by rw [Field.ownPath?, hxpath, Option.bind_none]
    rw [addPaths_of_none index hxpath, hown, exists_addExtras_iff_placedIn index (by simp)]
    simp
  | some xpath =>
    constructor
    · intro h
      obtain ⟨result, h⟩ := h
      obtain ⟨path, next, hread, habsolute, hmarkers, hresult⟩ := (addPaths_eq_ok hxpath).mp h
      have hown : field.ownPath? = some path := by rw [Field.ownPath?, hxpath, Option.bind_some, hread]; rfl
      have hsteps := Path.steps_ne_nil_of_read hread habsolute
      have hplaced : path.PlacedIn scope := ⟨habsolute, hsteps, (addMarkers_eq_ok hmarkers).1⟩
      refine ⟨by simpa using ⟨path, hread, hplaced⟩, ?_⟩
      rw [hown, ← exists_addExtras_iff_placedIn next (by simpa using ⟨habsolute, hsteps⟩)]
      exact ⟨result, hresult⟩
    · intro h
      obtain ⟨hpath, hextras⟩ := h
      obtain ⟨path, hread, hplaced⟩ := hpath xpath rfl
      have hown : field.ownPath? = some path := by rw [Field.ownPath?, hxpath, Option.bind_some, hread]; rfl
      obtain ⟨next, hnext⟩ := exists_addMarkers fieldPath index hplaced.markers
      rw [hown,
        ← exists_addExtras_iff_placedIn next (by simpa using ⟨hplaced.absolute, hplaced.steps⟩)] at hextras
      obtain ⟨result, hresult⟩ := hextras
      exact ⟨result, (addPaths_eq_ok hxpath).mpr ⟨path, next, hread, hplaced.absolute, hnext, hresult⟩⟩

theorem bare_of_addPaths {fieldPath : String} {field : Field} {scope : List String}
    {index result : GroupIndex} (h : index.addPaths fieldPath field scope = .ok result) :
    result.bare = index.bare := by
  cases hxpath : field.xpath with
  | none =>
    rw [addPaths_of_none index hxpath] at h
    exact bare_of_addExtras h
  | some xpath =>
    obtain ⟨path, next, -, -, hmarkers, hresult⟩ := (addPaths_eq_ok hxpath).mp h
    rw [bare_of_addExtras hresult, (addMarkers_eq_ok hmarkers).2]

/-! ### Groups in order -/

theorem find?_bare (name : String) (index : GroupIndex) :
    index.bare.find? (fun group => group.name == name) =
      (index.find? name).map fun group => { group with members := [] } := by
  rw [bare, List.find?_map, find?]
  rfl

theorem register_eq_ok {group fieldPath : String} {sibling : Option String} {scope : List String}
    {index result : GroupIndex} :
    index.register group fieldPath sibling scope = .ok result ↔
      registers index.bare [{ name := group, fieldPath, scope, sibling, members := [] }] = true ∧
        result = ⟨index.groups ++ [{ name := group, fieldPath, scope, sibling, members := [] }]⟩ := by
  simp only [register, registers, find?_bare, Bool.and_true, Option.isNone_map]
  cases index.find? group with
  | some other => simp [bind, Except.bind]
  | none =>
    cases sibling with
    | none => simp [eq_comm]
    | some sibling =>
      cases hsibling : index.find? sibling with
      | none => simp [bind, Except.bind, hsibling]
      | some target =>
        by_cases hscope : target.scope = scope
        · simp [hsibling, hscope, eq_comm (a := result)]
        · simp [bind, Except.bind, hsibling, hscope]

end GroupIndex

theorem registers_append (known first second : List Group) :
    registers known (first ++ second) = (registers known first && registers (known ++ first) second) := by
  induction first generalizing known with
  | nil => simp [registers]
  | cons group rest ih => simp [registers, ih, Bool.and_assoc]

/-! ### Entry by entry -/

namespace Entry

open GroupIndex

/-- A field without a shape, or without a group, binds none. -/
theorem group?_eq_none_of_forall {entry : Entry} (h : ∀ fields group, entry.field.shape = some fields →
    entry.field.boundGroup? = some group → False) : entry.group? = none := by
  rw [group?]
  split
  · rename_i fields name hshape hgroup
    exact (h fields name hshape hgroup).elim
  · rfl

/-- What an entry that is indexed must be, and what it adds to the groups. -/
theorem addTo_eq_ok {index result : GroupIndex} {entry : Entry} (h : addTo index entry = .ok result) :
    entry.Composes ∧ registers index.bare entry.group?.toList = true ∧
      result.bare = index.bare ++ entry.group?.toList := by
  obtain ⟨next, hpaths, h⟩ := bind_eq_ok.mp h
  obtain ⟨hown, hextras⟩ := (exists_addPaths_iff _ _ _ _).mp ⟨next, hpaths⟩
  have hbare := bare_of_addPaths hpaths
  split at h
  · cases h
  · rename_i hsibling
    have hcomposes : entry.Composes := by
      refine ⟨hown, hextras, fun hsome => ?_⟩
      cases hbound : entry.field.boundGroup? with
      | none => exact absurd ⟨hsome, by rw [hbound]; rfl⟩ hsibling
      | some group => rfl
    refine ⟨hcomposes, ?_⟩
    rw [← hbare]
    split at h
    · rename_i fields group hshape hgroup
      obtain ⟨hregisters, rfl⟩ := register_eq_ok.mp h
      rw [group?, hshape, hgroup]
      exact ⟨hregisters, by simp [bare]⟩
    · rename_i hnone
      obtain rfl := Except.ok.inj h
      rw [group?_eq_none_of_forall hnone]
      exact ⟨rfl, by simp⟩

/-- An entry that composes is indexed, if its group can be registered. -/
theorem exists_addTo {index : GroupIndex} {entry : Entry} (hcomposes : entry.Composes)
    (hregisters : registers index.bare entry.group?.toList = true) :
    ∃ result, addTo index entry = .ok result := by
  obtain ⟨next, hpaths⟩ := (exists_addPaths_iff (Schema.dotted entry.names) entry.field entry.scope index).mpr
    ⟨hcomposes.own, hcomposes.extras⟩
  have hsibling : ¬(entry.field.sibling.isSome = true ∧ entry.field.boundGroup?.isNone = true) := by
    intro h
    obtain ⟨hsome, hnone⟩ := h
    have hbound := hcomposes.sibling hsome
    rw [Option.isNone_iff_eq_none.mp hnone] at hbound
    cases hbound
  rw [← bare_of_addPaths hpaths, group?] at hregisters
  simp only [addTo, hpaths, bind, Except.bind, if_neg hsibling]
  split
  · rename_i fields group hshape hgroup
    rw [hshape, hgroup] at hregisters
    exact ⟨_, register_eq_ok.mpr ⟨hregisters, rfl⟩⟩
  · exact ⟨next, rfl⟩

/-- Entries are indexed in order iff each composes and their groups can be registered. -/
theorem exists_foldlM_addTo_iff (all : List Entry) (index : GroupIndex) :
    (∃ result, all.foldlM addTo index = .ok result) ↔
      (∀ entry ∈ all, entry.Composes) ∧ registers index.bare (all.filterMap group?) = true := by
  induction all generalizing index with
  | nil => simp [registers, pure, Except.pure]
  | cons entry rest ih =>
    have hgroups : (entry :: rest).filterMap group? = entry.group?.toList ++ rest.filterMap group? := by
      cases hgroup : entry.group? <;> simp [hgroup]
    rw [List.foldlM_cons, List.forall_mem_cons, hgroups, registers_append, Bool.and_eq_true]
    constructor
    · intro h
      obtain ⟨result, h⟩ := h
      obtain ⟨next, hnext, h⟩ := bind_eq_ok.mp h
      obtain ⟨hcomposes, hregisters, hbare⟩ := addTo_eq_ok hnext
      obtain ⟨hrest, hothers⟩ := (ih next).mp ⟨result, h⟩
      exact ⟨⟨hcomposes, hrest⟩, hregisters, hbare ▸ hothers⟩
    · intro h
      obtain ⟨⟨hcomposes, hrest⟩, hregisters, hothers⟩ := h
      obtain ⟨next, hnext⟩ := exists_addTo hcomposes hregisters
      obtain ⟨-, -, hbare⟩ := addTo_eq_ok hnext
      obtain ⟨result, h⟩ := (ih next).mpr ⟨hrest, hbare ▸ hothers⟩
      exact ⟨result, bind_eq_ok.mpr ⟨next, hnext, h⟩⟩

theorem bare_of_foldlM_addTo {all : List Entry} {index result : GroupIndex}
    (h : all.foldlM addTo index = .ok result) : result.bare = index.bare ++ all.filterMap group? := by
  induction all generalizing index with
  | nil =>
    obtain rfl := Except.ok.inj h
    simp
  | cons entry rest ih =>
    rw [List.foldlM_cons] at h
    obtain ⟨next, hnext, h⟩ := bind_eq_ok.mp h
    rw [ih h, (addTo_eq_ok hnext).2.2, List.append_assoc]
    cases hgroup : entry.group? <;> simp [hgroup]

end Entry

/-! ### Schemas -/

namespace Schema

/-- The groups that a schema binds, without their members. -/
def boundGroups (schema : Schema) : List Group := schema.entries.filterMap Entry.group?

/-- **When a schema composes.** All its entries do, and its groups can be registered in order. -/
theorem compose_eq_ok_iff (schema : Schema) :
    (∃ composed, schema.compose = .ok composed) ↔
      (∀ entry ∈ schema.entries, entry.Composes) ∧ registers [] schema.boundGroups = true := by
  rw [← show GroupIndex.bare {} = [] from rfl, boundGroups, ← Entry.exists_foldlM_addTo_iff,
    ← GroupIndex.build_eq]
  constructor
  · intro h
    obtain ⟨composed, h⟩ := h
    obtain ⟨groups, hbuild, -⟩ := bind_eq_ok.mp h
    exact ⟨groups, hbuild⟩
  · intro h
    obtain ⟨groups, hbuild⟩ := h
    exact ⟨⟨schema, groups⟩, bind_eq_ok.mpr ⟨groups, hbuild, rfl⟩⟩

variable {schema : Schema} {composed : ComposedSchema}

theorem schema_of_compose (h : schema.compose = .ok composed) : composed.schema = schema := by
  obtain ⟨groups, -, h⟩ := bind_eq_ok.mp h
  obtain rfl := Except.ok.inj h
  rfl

/-- The groups of a composed schema are those of its entries. -/
theorem bare_groups_of_compose (h : schema.compose = .ok composed) :
    composed.groups.bare = schema.boundGroups := by
  obtain ⟨groups, hbuild, h⟩ := bind_eq_ok.mp h
  obtain rfl := Except.ok.inj h
  rw [GroupIndex.build_eq] at hbuild
  exact Entry.bare_of_foldlM_addTo hbuild

end Schema

end InvoiceXml
