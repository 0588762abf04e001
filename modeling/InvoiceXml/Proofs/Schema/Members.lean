import InvoiceXml.Proofs.Schema.Terms

/-!
# The members of groups

A field carries the markers in its paths (`Field.markers`): in its own, and in those of its extras,
which continue its own where they are relative. The members of a group are the paths of the fields
that carry its marker.

Indexing an entry notes its path at all groups whose markers its field carries (`groups_of_addTo`),
so a group has as members the carriers behind the entry that registers it
(`members_of_foldlM_addTo`). There are no others: a marker is bound by a group around the field
(`mem_scope_of_mem_markers`), which is registered before.

* `members_eq`: the members of a group are the carriers of its marker in the whole schema, in order;
* **`members_of_build`**: so a path is a member of a group iff it leads to a field that carries the
  marker, members come in the order of declaration and only once, and all are below the array that
  declares the group.
-/

namespace InvoiceXml

namespace Field

/-- The paths of a field: its own, and those of its extras. -/
def paths (field : Field) : List Path :=
  field.ownPath?.toList ++ field.extraEntries.filterMap fun extra =>
    GroupIndex.extraPath? field.ownPath? extra.1

/-- The markers in the paths of a field. -/
def markers (field : Field) : List String := field.paths.flatMap Path.markers

end Field

namespace GroupIndex

/-! ### Noting a path -/

/-- Notes a path at all groups that have one of the markers. -/
def note (fieldPath : String) (markers : List String) (index : GroupIndex) : GroupIndex :=
  ⟨index.groups.map fun group =>
    if group.name ∈ markers then { group with members := addOnce fieldPath group.members } else group⟩

theorem addOnce_addOnce (member : String) (members : List String) :
    addOnce member (addOnce member members) = addOnce member members := by
  rw [addOnce]
  refine if_pos ?_
  rw [addOnce]
  split
  · assumption
  · simp

theorem note_nil (fieldPath : String) (index : GroupIndex) : index.note fieldPath [] = index := by
  simp [note]

/-- Noting a path twice is noting it once, at the groups of both. -/
theorem note_note (fieldPath : String) (first second : List String) (index : GroupIndex) :
    (index.note fieldPath first).note fieldPath second = index.note fieldPath (first ++ second) := by
  rw [note, note, note, List.map_map]
  refine congrArg GroupIndex.mk (List.map_congr_left fun group _ => ?_)
  by_cases hfirst : group.name ∈ first <;> by_cases hsecond : group.name ∈ second <;>
    simp [hfirst, hsecond, addOnce_addOnce]

theorem addMember_eq_note (marker fieldPath : String) (index : GroupIndex) :
    index.addMember marker fieldPath = index.note fieldPath [marker] := by
  simp [addMember, note]

variable {index result : GroupIndex} {fieldPath : String} {scope : List String}

theorem eq_note_of_addMarkers {xpath : Path} (h : index.addMarkers xpath fieldPath scope = .ok result) :
    result = index.note fieldPath xpath.markers := by
  rw [addMarkers] at h
  split at h
  · cases h
  · obtain rfl := Except.ok.inj h
    clear h
    generalize xpath.markers = markers
    induction markers generalizing index with
    | nil => exact (note_nil fieldPath index).symm
    | cons marker rest ih => rw [List.foldl_cons, ih, addMember_eq_note, note_note, List.singleton_append]

theorem eq_note_of_addExtras {owner : Option Path} {extras : List (String × ExtraValue)}
    (h : addExtras fieldPath owner scope extras index = .ok result) :
    result = index.note fieldPath
      ((extras.filterMap fun extra => extraPath? owner extra.1).flatMap Path.markers) := by
  induction extras generalizing index with
  | nil =>
    obtain rfl := Except.ok.inj h
    exact (note_nil fieldPath index).symm
  | cons extra rest ih =>
    obtain ⟨path, hpath, h⟩ := bind_eq_ok.mp h
    obtain ⟨next, hmarkers, h⟩ := bind_eq_ok.mp h
    rw [ih h, eq_note_of_addMarkers hmarkers, note_note, List.filterMap_cons, resolveExtra_eq_ok.mp hpath,
      List.flatMap_cons]

/-- **What the paths of a field do to the groups.** Its path is noted at those whose markers it carries. -/
theorem eq_note_of_addPaths {field : Field} (h : index.addPaths fieldPath field scope = .ok result) :
    result = index.note fieldPath field.markers := by
  rw [Field.markers, Field.paths, List.flatMap_append]
  cases hxpath : field.xpath with
  | none =>
    have hown : field.ownPath? = none := by rw [Field.ownPath?, hxpath, Option.bind_none]
    rw [addPaths_of_none index hxpath] at h
    rw [eq_note_of_addExtras h, hown]
    rfl
  | some xpath =>
    obtain ⟨path, next, hread, -, hmarkers, h⟩ := (addPaths_eq_ok hxpath).mp h
    have hown : field.ownPath? = some path := by rw [Field.ownPath?, hxpath, Option.bind_some, hread]; rfl
    rw [eq_note_of_addExtras h, eq_note_of_addMarkers hmarkers, note_note, hown]
    simp

end GroupIndex

namespace Entry

open GroupIndex (addOnce)

/-! ### Entry by entry -/

/-- The paths of the entries whose fields carry a marker. -/
def carriers (marker : String) (all : List Entry) : List String :=
  (all.filter fun entry => marker ∈ entry.field.markers).map fun entry => Schema.dotted entry.names

theorem carriers_append (marker : String) (first second : List Entry) :
    carriers marker (first ++ second) = carriers marker first ++ carriers marker second := by
  rw [carriers, List.filter_append, List.map_append]
  rfl

theorem carriers_eq_nil {marker : String} {all : List Entry}
    (h : ∀ entry ∈ all, marker ∉ entry.field.markers) :
    carriers marker all = [] := by
  rw [carriers, List.filter_eq_nil_iff.mpr (by simpa using h), List.map_nil]

/-- A field carries markers of groups around it only. -/
theorem Composes.mem_scope_of_mem_markers {entry : Entry} (h : entry.Composes) {marker : String}
    (hmem : marker ∈ entry.field.markers) : marker ∈ entry.scope := by
  obtain ⟨path, hpath, hmarker⟩ := List.mem_flatMap.mp hmem
  rcases List.mem_append.mp hpath with hown | hextra
  · obtain ⟨xpath, hxpath, hread⟩ := Option.bind_eq_some_iff.mp (Option.mem_toList.mp hown)
    obtain ⟨found, hfound, hplaced⟩ := h.own xpath hxpath
    obtain rfl : found = path := by simpa [hfound, Except.toOption] using hread
    exact hplaced.markers marker hmarker
  · obtain ⟨extra, hextra, hresolved⟩ := List.mem_filterMap.mp hextra
    obtain ⟨found, hfound, hplaced⟩ := h.extras extra hextra
    obtain rfl : found = path := Option.some.inj (hfound.symm.trans hresolved)
    exact hplaced.markers marker hmarker

/-- **One entry.** Its path is noted at the groups whose markers it carries, and its own group is
registered. -/
theorem groups_of_addTo {index result : GroupIndex} {entry : Entry} (h : addTo index entry = .ok result) :
    result.groups = (index.note (Schema.dotted entry.names) entry.field.markers).groups ++
      entry.group?.toList := by
  obtain ⟨next, hpaths, h⟩ := bind_eq_ok.mp h
  rw [← GroupIndex.eq_note_of_addPaths hpaths]
  split at h
  · cases h
  · split at h
    · rename_i fields group hshape hgroup
      obtain ⟨-, rfl⟩ := GroupIndex.register_eq_ok.mp h
      rw [group?, hshape, hgroup]
      rfl
    · rename_i hnone
      obtain rfl := Except.ok.inj h
      rw [group?_eq_none_of_forall hnone, Option.toList_none, List.append_nil]

theorem members_group? {entry : Entry} {group : Group} (h : entry.group? = some group) :
    group.members = [] := by
  rw [group?] at h
  split at h
  · obtain rfl := Option.some.inj h
    rfl
  · cases h

/-- **All entries.** A group was there before, or an entry registered it; since then it got the
carriers of its marker. -/
theorem members_of_foldlM_addTo {all : List Entry} {index result : GroupIndex}
    (h : all.foldlM addTo index = .ok result) {group : Group} (hgroup : group ∈ result.groups) :
    (∃ old ∈ index.groups, old.name = group.name ∧
      group.members = (carriers group.name all).foldl (fun members path =>
        addOnce path members) old.members) ∨
    ∃ before entry after bound, all = before ++ entry :: after ∧ entry.group? = some bound ∧
      bound.name = group.name ∧
      group.members = (carriers group.name after).foldl (fun members path => addOnce path members) [] := by
  induction all generalizing index with
  | nil =>
    obtain rfl := Except.ok.inj h
    exact .inl ⟨group, hgroup, rfl, rfl⟩
  | cons entry rest ih =>
    rw [List.foldlM_cons] at h
    obtain ⟨next, hnext, h⟩ := bind_eq_ok.mp h
    rcases ih h with ⟨old, hold, hname, hmembers⟩
      | ⟨before, other, after, bound, hsplit, hbound, hname, hmembers⟩
    · rw [groups_of_addTo hnext, List.mem_append] at hold
      rcases hold with hold | hold
      · -- the group was there before this entry, which may carry its marker
        obtain ⟨older, holder, rfl⟩ := List.mem_map.mp hold
        refine .inl ⟨older, holder, ?_⟩
        rw [hmembers, carriers, carriers, List.filter_cons]
        by_cases hcarries : older.name ∈ entry.field.markers
        · rw [if_pos hcarries] at hname
          have hmarker : group.name ∈ entry.field.markers := hname ▸ hcarries
          exact ⟨hname, by simp [hcarries, hmarker]⟩
        · rw [if_neg hcarries] at hname
          have hmarker : group.name ∉ entry.field.markers := hname ▸ hcarries
          exact ⟨hname, by simp [hcarries, hmarker]⟩
      · have hbound := Option.mem_toList.mp hold
        refine .inr ⟨[], entry, rest, old, rfl, hbound, hname, ?_⟩
        rw [hmembers, members_group? hbound]
    · exact .inr ⟨entry :: before, other, after, bound, by rw [hsplit]; rfl, hbound, hname, hmembers⟩

end Entry

namespace GroupIndex

theorem foldl_addOnce {paths members : List String} (h : (members ++ paths).Nodup) :
    paths.foldl (fun members path => addOnce path members) members = members ++ paths := by
  induction paths generalizing members with
  | nil => simp
  | cons path rest ih =>
    have hnew : path ∉ members :=
      fun hmem => (List.nodup_append.mp h).2.2 path hmem path List.mem_cons_self rfl
    have honce : addOnce path members = members ++ [path] := if_neg (by simpa using hnew)
    rw [List.foldl_cons, honce, ih (by simpa using h), List.append_assoc, List.singleton_append]

variable {schema : Schema} {index : GroupIndex}

theorem carriers_sublist (marker : String) (all : List Entry) :
    (Entry.carriers marker all).Sublist (all.map fun entry => Schema.dotted entry.names) :=
  (List.filter_sublist).map _

/-- Before a group is registered no field carries its marker, and nor does the field that declares it. -/
theorem notMem_markers_of_mem_before (h : build schema = .ok index) {before after : List Entry}
    {entry : Entry} (hsplit : schema.entries = before ++ entry :: after) {group : Group}
    (hgroup : entry.group? = some group) :
    ∀ earlier ∈ before ++ [entry], group.name ∉ earlier.field.markers := by
  have hcompose : schema.compose = .ok ⟨schema, index⟩ := bind_eq_ok.mpr ⟨index, h, rfl⟩
  obtain ⟨hcomposes, hregisters⟩ := (Schema.compose_eq_ok_iff schema).mp ⟨_, hcompose⟩
  have hdistinct := (nodup_of_registers hregisters).1
  rw [Schema.boundGroups, hsplit, List.filterMap_append, List.filterMap_cons, hgroup,
    List.map_append, List.map_cons, List.nodup_append] at hdistinct
  intro earlier hearlier hcarries
  have hmem : earlier ∈ schema.entries := by
    rw [hsplit, List.append_cons]
    exact List.mem_append_left _ hearlier
  have hscope := (hcomposes earlier hmem).mem_scope_of_mem_markers hcarries
  -- the groups around it are bound before the entry
  have hbound : ScopesBound [] schema.entries := Schema.scopesBound_entriesBelow schema (List.nil_subset _)
  rw [hsplit, scopesBound_append, List.nil_append] at hbound
  have hbefore : group.name ∈ (before.filterMap Entry.group?).map (·.name) := by
    rcases List.mem_append.mp hearlier with hearlier | hself
    · simpa using hbound.1.scope_subset earlier hearlier hscope
    · obtain rfl := List.mem_singleton.mp hself
      exact hbound.2.1 hscope
  exact hdistinct.2.2 _ hbefore _ List.mem_cons_self rfl

/-- **What the members of a group are.** They are the paths of the fields that carry its marker, in order. -/
theorem members_eq (h : build schema = .ok index) (hnames : Schema.NamesHold Schema.DistinctSteps schema)
    {group : Group} (hgroup : group ∈ index.groups) :
    group.members = Entry.carriers group.name schema.entries := by
  have hfold := h
  rw [build_eq] at hfold
  rcases Entry.members_of_foldlM_addTo hfold hgroup with ⟨old, hold, -⟩
    | ⟨before, entry, after, bound, hsplit, hbound, hname, hmembers⟩
  · cases hold
  · have hbefore := notMem_markers_of_mem_before h hsplit hbound
    have hdistinct : (Entry.carriers group.name after).Nodup := by
      have hall := Schema.nodup_paths_entries hnames
      rw [hsplit, List.map_append, List.map_cons] at hall
      exact (List.nodup_cons.mp (List.nodup_append.mp hall).2.1).2.sublist (carriers_sublist _ after)
    have hnone : Entry.carriers group.name (before ++ [entry]) = [] := Entry.carriers_eq_nil (hname ▸ hbefore)
    rw [hmembers, foldl_addOnce (by simpa using hdistinct), hsplit, List.append_cons,
      Entry.carriers_append, hnone]

end GroupIndex

namespace Schema

variable {schema : Schema} {around : List (String × Field)} {name : String} {field : Field}

/-- A group around a field is declared by one of the fields around it. -/
theorem Nested.exists_declares (h : schema.Nested around name field) {group : String}
    (hgroup : group ∈ groupsOf around) :
    ∃ outer declared box below, schema.Declares outer declared box group ∧
      around = outer ++ (declared, box) :: below := by
  induction h with
  | here => cases hgroup
  | @inside schema other box fields around name field hmem hshape hnested ih =>
    rw [groupsOf_cons, List.mem_append] at hgroup
    rcases hgroup with hgroup | hgroup
    · refine ⟨[], other, box, around, ⟨.here hmem, by rw [hshape]; rfl, Option.mem_toList.mp hgroup⟩, rfl⟩
    · obtain ⟨outer, declared, found, below, hdeclares, rfl⟩ := ih hgroup
      exact ⟨(other, box) :: outer, declared, found, below,
        ⟨.inside hmem hshape hdeclares.nested, hdeclares.shape, hdeclares.bound⟩, rfl⟩

end Schema

namespace GroupIndex

variable {schema : Schema} {index : GroupIndex}

/-- A field that is declared in a schema carries markers of groups around it only. -/
theorem mem_groupsOf_of_mem_markers (h : build schema = .ok index) {around : List (String × Field)}
    {name : String} {field : Field} (hnested : schema.Nested around name field) {marker : String}
    (hmarker : marker ∈ field.markers) :
    marker ∈ Schema.groupsOf around := by
  have hcompose : schema.compose = .ok ⟨schema, index⟩ := bind_eq_ok.mpr ⟨index, h, rfl⟩
  let entry : Entry := ⟨around.map (·.1) ++ [name], Schema.groupsOf around, field⟩
  have hentry : entry ∈ schema.entries :=
    (Schema.mem_entriesBelow_iff_nested schema).mpr ⟨around, name, hnested, rfl, rfl⟩
  exact (((Schema.compose_eq_ok_iff schema).mp ⟨_, hcompose⟩).1 entry hentry).mem_scope_of_mem_markers hmarker

theorem mem_members_iff (h : build schema = .ok index) (hnames : Schema.NamesHold Schema.DistinctSteps schema)
    {group : Group} (hgroup : group ∈ index.groups) {path : String} :
    path ∈ group.members ↔ ∃ around name field, schema.Nested around name field ∧ group.name ∈ field.markers ∧
      path = Schema.pathIn around name := by
  rw [members_eq h hnames hgroup, Entry.carriers, List.mem_map]
  constructor
  · rintro ⟨entry, hentry, rfl⟩
    obtain ⟨hmem, hcarries⟩ := List.mem_filter.mp hentry
    obtain ⟨around, name, hnested, hway, -⟩ := (Schema.mem_entriesBelow_iff_nested schema).mp hmem
    exact ⟨around, name, entry.field, hnested, of_decide_eq_true hcarries, congrArg Schema.dotted hway⟩
  · rintro ⟨around, name, field, hnested, hcarries, rfl⟩
    refine ⟨⟨around.map (·.1) ++ [name], Schema.groupsOf around, field⟩,
      List.mem_filter.mpr ⟨?_, decide_eq_true hcarries⟩, rfl⟩
    exact (Schema.mem_entriesBelow_iff_nested schema).mpr ⟨around, name, hnested, rfl, rfl⟩

/-- **The members of a group.** Where at every depth no name comes twice, is empty or has a point:
the path of a group leads to the array of objects that declares it; a path is a member iff it leads
to a field that carries the marker of the group; members come once, in the order of declaration; and
each lies below the path of the group. -/
theorem members_of_build (hnames : Schema.NamesHold Schema.DistinctSteps schema)
    (h : build schema = .ok index) {group : Group} (hgroup : group ∈ index.groups) :
    (∃ field, schema.lookup? group.fieldPath = some field ∧ field.type = .objectArray ∧
      field.group = some group.name) ∧
    (∀ path, path ∈ group.members ↔ ∃ field, schema.lookup? path = some field ∧ group.name ∈ field.markers) ∧
    group.members.Nodup ∧
    (group.members.Pairwise fun earlier later =>
      Schema.DeclaredBefore schema (Text.pieces '.' earlier) (Text.pieces '.' later)) ∧
    ∀ path ∈ group.members, ∃ below, below ≠ [] ∧
      Text.pieces '.' path = Text.pieces '.' group.fieldPath ++ below := by
  have hindexes := indexes_of_build h
  have hlisted : group.members.Sublist (schema.entries.map fun entry => Schema.dotted entry.names) :=
    members_eq h hnames hgroup ▸ carriers_sublist group.name schema.entries
  refine ⟨?_, fun path => ?_, (Schema.nodup_paths_entries hnames).sublist hlisted,
    (Schema.pairwise_paths_entries hnames).sublist hlisted, fun path hpath => ?_⟩
  · obtain ⟨around, name, field, hdeclares⟩ := hindexes.declared group hgroup
    obtain ⟨hfieldPath, -⟩ := hindexes.described group hgroup around name field hdeclares
    exact ⟨field, hfieldPath ▸ hdeclares.nested.lookup?_pathIn hnames,
      Field.boundGroup?_eq_some_iff.mp hdeclares.bound⟩
  · rw [mem_members_iff h hnames hgroup]
    constructor
    · rintro ⟨around, name, field, hnested, hcarries, rfl⟩
      exact ⟨field, hnested.lookup?_pathIn hnames, hcarries⟩
    · rintro ⟨field, hfound, hcarries⟩
      obtain ⟨around, name, hnested, hpath⟩ := Schema.exists_nested_of_lookup? hfound hnames
      exact ⟨around, name, field, hnested, hcarries, hpath⟩
  · obtain ⟨around, name, field, hnested, hcarries, rfl⟩ := (mem_members_iff h hnames hgroup).mp hpath
    have hscope := mem_groupsOf_of_mem_markers h hnested hcarries
    obtain ⟨outer, declared, box, below, hdeclares, rfl⟩ := hnested.exists_declares hscope
    obtain ⟨hfieldPath, -⟩ := hindexes.described group hgroup outer declared box hdeclares
    refine ⟨below.map (·.1) ++ [name], by simp, ?_⟩
    rw [hfieldPath, Schema.pathIn, Schema.pathIn, Schema.pieces_dotted (by simp) (hnested.isStep hnames),
      Schema.pieces_dotted (by simp) (hdeclares.nested.isStep hnames)]
    simp

/-- Lines with parts: the marker of the parts is carried by a relative extra only, that of the lines
by fields of all kinds, and by the amount in both of its paths. -/
def partedLines : Schema := [("lines", (Field.ofArray [
  ("id", ((Field.ofChoice []).placedAt "/doc/line[lines]/id").withExtra "@kind" (.flag true)),
  ("parts", (Field.ofArray [
    ("amount",
      ((Field.ofChoice []).placedAt "/doc/line[lines]").withExtra "part[parts]/amount" (.text "1"))]).inGroup
        "parts"),
  ("note", (Field.ofObject []).withExtra "/doc/line[lines]/note" (.text "new")),
  ("total", (Field.ofChoice []).placedAt "/doc/total")]).inGroup "lines")]

theorem members_of_build_partedLines :
    Schema.NamesHold Schema.DistinctSteps partedLines ∧
    ∃ index lines parts, build partedLines = .ok index ∧ index.groups = [lines, parts] ∧
      (lines.name, lines.fieldPath) = ("lines", "lines") ∧
      lines.members = ["lines.id", "lines.parts.amount", "lines.note"] ∧
      (parts.name, parts.fieldPath) = ("parts", "lines.parts") ∧ parts.members = ["lines.parts.amount"] ∧
      (∃ field, partedLines.lookup? "lines.parts.amount" = some field ∧ "parts" ∈ field.markers) ∧
      lines.members.Nodup := by
  have hnames : Schema.NamesHold Schema.DistinctSteps partedLines := by decide +kernel
  have hok : (build partedLines).toOption.any (fun index => index.groups =
      [⟨"lines", "lines", [], none, ["lines.id", "lines.parts.amount", "lines.note"]⟩,
        ⟨"parts", "lines.parts", ["lines"], none, ["lines.parts.amount"]⟩]) = true := by decide +kernel
  cases hbuild : build partedLines with
  | error error =>
    rw [hbuild] at hok
    cases hok
  | ok index =>
    rw [hbuild] at hok
    have hgroups := of_decide_eq_true hok
    obtain ⟨-, -, hdistinct, -⟩ := members_of_build hnames hbuild (hgroups ▸ List.mem_cons_self)
    obtain ⟨-, hmembers, -⟩ := members_of_build hnames hbuild
      (hgroups ▸ List.mem_cons_of_mem _ List.mem_cons_self)
    exact ⟨hnames, index, _, _, rfl, hgroups, rfl, rfl, rfl, rfl,
      (hmembers _).mp List.mem_cons_self, hdistinct⟩

end GroupIndex

end InvoiceXml
