import InvoiceXml.Definition.Reader
import InvoiceXml.Proofs.Schema.Composition
import InvoiceXml.Proofs.Schema.WellFormed

/-!
# Definitions are well-formed

In the data that a definition is read from no object repeats a key (`Data.HasDistinctKeys`): a
repeated one keeps its last value. A shape is accepted exactly where the type of its field needs
one. So every schema that is read is well-formed, in either format and with any validators.

* **`wellFormed_of_read`**: the schema of a definition is well-formed;
* `hasDistinctKeys_normal`, `hasDistinctKeys_data?`: the data of a text repeats no key.

The readers recurse on data; each of them has one lemma, and the lemmas recurse in the same way.
-/

namespace InvoiceXml

namespace Data

mutual

/-- Whether no object in the data repeats a key. -/
def HasDistinctKeys : Data → Prop
  | arr items => ItemsHaveDistinctKeys items
  | obj members => (members.map (·.1)).Nodup ∧ MembersHaveDistinctKeys members
  | null | bool _ | num _ | str _ => True

def ItemsHaveDistinctKeys : List Data → Prop
  | [] => True
  | item :: rest => HasDistinctKeys item ∧ ItemsHaveDistinctKeys rest

def MembersHaveDistinctKeys : List (String × Data) → Prop
  | [] => True
  | (_, value) :: rest => HasDistinctKeys value ∧ MembersHaveDistinctKeys rest

end

theorem membersHaveDistinctKeys_iff {members : List (String × Data)} :
    MembersHaveDistinctKeys members ↔ ∀ key value, (key, value) ∈ members → HasDistinctKeys value := by
  induction members with
  | nil => simp [MembersHaveDistinctKeys]
  | cons head rest ih =>
    obtain ⟨first, found⟩ := head
    rw [MembersHaveDistinctKeys, ih]
    constructor
    · intro h key value hmem
      rcases List.mem_cons.mp hmem with heq | hmem
      · obtain ⟨rfl, rfl⟩ := Prod.mk.inj heq
        exact h.1
      · exact h.2 key value hmem
    · intro h
      exact ⟨h first found List.mem_cons_self, fun key value hmem =>
        h key value (List.mem_cons_of_mem _ hmem)⟩

/-! ### Members without repetition -/

theorem nodup_keys_putMember {key : String} (value : Data) {members : List (String × Data)}
    (h : (members.map (·.1)).Nodup) : ((putMember key value members).map (·.1)).Nodup := by
  rw [keys_putMember]
  split
  · exact h
  · rename_i hnew
    rw [List.nodup_append]
    refine ⟨h, by simp, ?_⟩
    intro a ha b hb heq
    exact hnew (List.mem_singleton.mp hb ▸ heq ▸ ha)

theorem mem_of_mem_putMember {key : String} {value : Data} {members : List (String × Data)}
    {member : String × Data} (h : member ∈ putMember key value members) :
    member = (key, value) ∨ member ∈ members := by
  induction members with
  | nil => exact .inl (List.mem_singleton.mp h)
  | cons head rest ih =>
    obtain ⟨other, old⟩ := head
    rw [putMember] at h
    split at h
    · rename_i hkey
      rcases List.mem_cons.mp h with h | h
      · exact .inl (hkey ▸ h)
      · exact .inr (List.mem_cons_of_mem _ h)
    · rcases List.mem_cons.mp h with h | h
      · exact .inr (h ▸ List.mem_cons_self)
      · exact (ih h).imp_right (List.mem_cons_of_mem _)

theorem hasDistinctKeys_membersOf {pairs : List (String × Data)} (h : MembersHaveDistinctKeys pairs) :
    HasDistinctKeys (obj (membersOf pairs)) := by
  have hfold : ∀ (rest before : List (String × Data)), MembersHaveDistinctKeys rest →
      HasDistinctKeys (obj before) →
        HasDistinctKeys (obj (rest.foldl (fun members pair => putMember pair.1 pair.2 members) before)) := by
    intro rest
    induction rest with
    | nil => intro before _ hbefore; exact hbefore
    | cons pair rest ih =>
      intro before hrest hbefore
      obtain ⟨key, value⟩ := pair
      refine ih _ hrest.2 ⟨nodup_keys_putMember value hbefore.1, membersHaveDistinctKeys_iff.mpr ?_⟩
      intro other found hmem
      rcases mem_of_mem_putMember hmem with heq | hmem
      · obtain ⟨rfl, rfl⟩ := Prod.mk.inj heq
        exact hrest.1
      · exact membersHaveDistinctKeys_iff.mp hbefore.2 other found hmem
  exact hfold pairs [] h ⟨List.nodup_nil, trivial⟩

mutual

/-- Data in which a repeated key keeps its last value repeats none. -/
theorem hasDistinctKeys_normal : ∀ data : Data, HasDistinctKeys (normal data)
  | null | bool _ | num _ | str _ => trivial
  | arr items => by
    rw [normal]
    exact hasDistinctKeys_normalItems items
  | obj pairs => by
    rw [normal]
    exact hasDistinctKeys_membersOf (hasDistinctKeys_normalMembers pairs)

theorem hasDistinctKeys_normalItems : ∀ items : List Data, ItemsHaveDistinctKeys (normalItems items)
  | [] => trivial
  | item :: rest => ⟨hasDistinctKeys_normal item, hasDistinctKeys_normalItems rest⟩

theorem hasDistinctKeys_normalMembers :
    ∀ pairs : List (String × Data), MembersHaveDistinctKeys (normalMembers pairs)
  | [] => trivial
  | (_, value) :: rest => ⟨hasDistinctKeys_normal value, hasDistinctKeys_normalMembers rest⟩

end

end Data

namespace Yaml.Node

theorem hasDistinctKeys_looseData (text : String) : (looseData text).HasDistinctKeys := by
  rw [looseData]
  split
  · trivial
  · split
    · trivial
    · split <;> trivial

theorem hasDistinctKeys_plainData? {text : String} {data : Data} (h : plainData? text = some data) :
    data.HasDistinctKeys := by
  rw [plainData?] at h
  split at h
  · obtain rfl := Option.some.inj h
    trivial
  · split at h
    · obtain rfl := Option.some.inj h
      trivial
    · split at h
      · split at h
        · obtain rfl := Option.some.inj h
          trivial
        · split at h
          · cases h
          · obtain rfl := Option.some.inj h
            exact hasDistinctKeys_looseData text
      · obtain rfl := Option.some.inj h
        exact hasDistinctKeys_looseData text

mutual

theorem hasDistinctKeys_data? : ∀ (node : Node) {data : Data}, node.data? = some data → data.HasDistinctKeys
  | scalar plain text, data, h => by
    rw [data?] at h
    split at h
    · exact hasDistinctKeys_plainData? h
    · obtain rfl := Option.some.inj h
      trivial
  | list items, data, h => by
    rw [data?] at h
    obtain ⟨found, hfound, rfl⟩ := Option.map_eq_some_iff.mp h
    exact hasDistinctKeys_dataItems? items hfound
  | map entries, data, h => by
    rw [data?] at h
    obtain ⟨members, hmembers, rfl⟩ := Option.map_eq_some_iff.mp h
    exact Data.hasDistinctKeys_membersOf (hasDistinctKeys_dataMembers? entries hmembers)

theorem hasDistinctKeys_dataItems? :
    ∀ (items : List Node) {data : List Data}, dataItems? items = some data → Data.ItemsHaveDistinctKeys data
  | [], data, h => by
    obtain rfl := Option.some.inj h
    trivial
  | item :: rest, data, h => by
    simp only [dataItems?, Option.bind_eq_bind, Option.bind_eq_some_iff, Option.some.injEq] at h
    obtain ⟨first, hfirst, others, hothers, rfl⟩ := h
    exact ⟨hasDistinctKeys_data? item hfirst, hasDistinctKeys_dataItems? rest hothers⟩

theorem hasDistinctKeys_dataMembers? :
    ∀ (entries : List (String × Node)) {members : List (String × Data)}, dataMembers? entries = some members →
      Data.MembersHaveDistinctKeys members
  | [], members, h => by
    obtain rfl := Option.some.inj h
    trivial
  | (key, node) :: rest, members, h => by
    simp only [dataMembers?, Option.bind_eq_bind, Option.bind_eq_some_iff, Option.some.injEq] at h
    obtain ⟨first, hfirst, others, hothers, rfl⟩ := h
    exact ⟨hasDistinctKeys_data? node hfirst, hasDistinctKeys_dataMembers? rest hothers⟩

end

end Yaml.Node

/-! ### Fields of a definition -/

namespace FieldDefinition

/-- A field is read only with a shape that fits its type; the shape is what was read before. -/
theorem wellFormed_field {validators : Validators} {path : FieldPath} {definition : FieldDefinition}
    {shape : Except SchemaError (Option Schema)} {field : Field}
    (h : definition.field validators path shape = .ok field)
    (hshape : ∀ fields, shape = .ok (some fields) → Schema.WellFormed fields) : field.WellFormed := by
  obtain ⟨type, -, h⟩ := bind_eq_ok.mp h
  obtain ⟨found, hfound, h⟩ := bind_eq_ok.mp h
  split at h
  · cases h
  · rename_i hfits
    have hfield : field.type = type ∧ field.shape = found := by
      split at h
      all_goals
        obtain ⟨extras, -, h⟩ := bind_eq_ok.mp h
        obtain rfl := Except.ok.inj h
        exact ⟨rfl, rfl⟩
    rw [Field.wellFormed_iff, Schema.HasFittingShape, hfield.1, hfield.2]
    exact ⟨not_ne_iff.mp hfits, fun fields hfields =>
      hshape fields (hfound.trans (congrArg Except.ok hfields))⟩

variable {validators : Validators}

mutual

theorem wellFormed_readField : ∀ (data : Data) {path : FieldPath} {field : Field}, data.HasDistinctKeys →
    readField validators path data = .ok field → field.WellFormed
  | .obj members, path, field, hdistinct, h => by
    rw [readField] at h
    obtain ⟨definition, -, h⟩ := bind_eq_ok.mp h
    exact wellFormed_field h fun fields hfields => wellFormed_readShape members hdistinct.2 hfields
  | .arr items, path, field, hdistinct, h => by
    rw [readField] at h
    obtain ⟨definition, -, h⟩ := bind_eq_ok.mp h
    exact wellFormed_field h fun fields hfields => wellFormed_readShapeAt items shapePlace hdistinct hfields
  | .null, _, _, _, h | .bool _, _, _, _, h | .num _, _, _, _, h | .str _, _, _, _,
    h => by simp [readField] at h

theorem wellFormed_readShape : ∀ (members : List (String × Data)) {path : FieldPath} {fields : Schema},
    Data.MembersHaveDistinctKeys members → readShape validators path members = .ok (some fields) →
      Schema.WellFormed fields
  | [], _, _, _, h => by
    rw [readShape] at h
    cases h
  | (key, value) :: rest, path, fields, hdistinct, h => by
    rw [readShape] at h
    split at h
    · exact wellFormed_readFieldsOf value hdistinct.1 h
    · exact wellFormed_readShape rest hdistinct.2 h

theorem wellFormed_readShapeAt : ∀ (items : List Data) (place : Nat) {path : FieldPath} {fields : Schema},
    Data.ItemsHaveDistinctKeys items → readShapeAt validators path place items = .ok (some fields) →
      Schema.WellFormed fields
  | [], _, _, _, _, h => by
    rw [readShapeAt] at h
    cases h
  | value :: rest, 0, path, fields, hdistinct, h => by
    rw [readShapeAt] at h
    exact wellFormed_readFieldsOf value hdistinct.1 h
  | value :: rest, place + 1, path, fields, hdistinct, h => by
    rw [readShapeAt] at h
    exact wellFormed_readShapeAt rest place hdistinct.2 h

theorem wellFormed_readFieldsOf : ∀ (data : Data) {path : FieldPath} {fields : Schema}, data.HasDistinctKeys →
    readFieldsOf validators path data = .ok (some fields) → Schema.WellFormed fields
  | .obj members, path, fields, hdistinct, h => by
    rw [readFieldsOf] at h
    cases hread : readFields validators path members with
    | error error =>
      rw [hread] at h
      cases h
    | ok found =>
      rw [hread] at h
      obtain rfl := Option.some.inj (Except.ok.inj h)
      exact (wellFormed_readFields members hdistinct.1 hdistinct.2 hread).1
  | .arr _, _, _, _, h | .null, _, _, _, h | .bool _, _, _, _, h | .num _, _, _, _, h
  | .str _, _, _, _, h => by
    simp [readFieldsOf] at h

/-- Fields are read under the keys of their definitions, so no name comes twice. -/
theorem wellFormed_readFields : ∀ (members : List (String × Data)) {path : FieldPath} {fields : Schema},
    (members.map (·.1)).Nodup → Data.MembersHaveDistinctKeys members →
      readFields validators path members = .ok fields →
        Schema.WellFormed fields ∧ fields.map (·.1) = members.map (·.1)
  | [], _, _, _, _, h => by
    rw [readFields] at h
    obtain rfl := Except.ok.inj h
    exact ⟨trivial, rfl⟩
  | (name, data) :: rest, path, fields, hnodup, hdistinct, h => by
    rw [readFields] at h
    obtain ⟨field, hfield, h⟩ := bind_eq_ok.mp h
    obtain ⟨others, hothers, h⟩ := bind_eq_ok.mp h
    obtain rfl := Except.ok.inj h
    obtain ⟨hnew, hnodup⟩ := List.nodup_cons.mp hnodup
    obtain ⟨hrest, hnames⟩ := wellFormed_readFields rest hnodup hdistinct.2 hothers
    refine ⟨⟨?_, wellFormed_readField data hdistinct.1 hfield, hrest⟩,
      by rw [List.map_cons, List.map_cons, hnames]⟩
    rw [hnames]
    exact hnew

end

end FieldDefinition

/-! ### Definitions -/

namespace ProfileDefinition

namespace Outline

/-- The fields of an outline are those that its slot gives; a slot that is not filled gives none. -/
theorem fields_of_ofSlots? {α : Type} {text? : α → Option String}
    {optional? : {β : Type} → (α → Option β) → Option α → Option (Option β)}
    {texts? : α → Option (List (String × String))} {fields? : α → Option (List (String × Data))}
    {slots : List (Option α)} {outline : Outline}
    (h : ofSlots? text? optional? texts? fields? slots = some outline) :
    outline.fields = [] ∨ ∃ slot, fields? slot = some outline.fields := by
  unfold ofSlots? at h
  split at h
  · rename_i fields
    simp only [Option.bind_eq_bind, Option.bind_eq_some_iff] at h
    obtain ⟨_, -, _, -, _, -, _, -, _, -, _, -, h⟩ := h
    cases fields with
    | none =>
      obtain rfl := Option.some.inj h
      exact .inl rfl
    | some slot =>
      obtain ⟨found, hfound, h⟩ := Option.bind_eq_some_iff.mp h
      obtain rfl := Option.some.inj h
      exact .inr ⟨slot, hfound⟩
  · cases h

/-- The fields of an outline repeat no key if no slot that is read gives members that do. -/
theorem hasDistinctKeys_ofSlots? {α : Type} {text? : α → Option String}
    {optional? : {β : Type} → (α → Option β) → Option α → Option (Option β)}
    {texts? : α → Option (List (String × String))} {fields? : α → Option (List (String × Data))}
    {slots : List (Option α)} {outline : Outline}
    (hread : ∀ slot {members}, fields? slot = some members → (Data.obj members).HasDistinctKeys)
    (h : ofSlots? text? optional? texts? fields? slots = some outline) :
    (Data.obj outline.fields).HasDistinctKeys := by
  rcases fields_of_ofSlots? h with hnone | ⟨slot, hslot⟩
  · rw [hnone]
    exact ⟨List.nodup_nil, trivial⟩
  · exact hread slot hslot

theorem hasDistinctKeys_dataMembers? (data : Data) {members : List (String × Data)}
    (h : dataMembers? data = some members) : (Data.obj members).HasDistinctKeys := by
  cases data with
  | obj pairs =>
    have hdistinct := Data.hasDistinctKeys_normal (.obj pairs)
    rw [Data.normal] at hdistinct
    rw [dataMembers?, Data.normal] at h
    obtain rfl := Option.some.inj h
    exact hdistinct
  | null | bool _ | num _ | str _ | arr _ => cases h

theorem hasDistinctKeys_nodeMembers? (node : Yaml.Node) {members : List (String × Data)}
    (h : nodeMembers? node = some members) : (Data.obj members).HasDistinctKeys := by
  simp only [nodeMembers?, Option.bind_eq_bind, Option.bind_eq_some_iff, Option.some.injEq] at h
  obtain ⟨entries, -, pairs, hpairs, rfl⟩ := h
  exact Data.hasDistinctKeys_membersOf (Yaml.Node.hasDistinctKeys_dataMembers? entries hpairs)

theorem hasDistinctKeys_ofJson? {text : String} {outline : Outline} (h : ofJson? text = some outline) :
    (Data.obj outline.fields).HasDistinctKeys := by
  simp only [ofJson?, Option.bind_eq_bind, Option.bind_eq_some_iff] at h
  obtain ⟨_, -, slots, -, h⟩ := h
  exact hasDistinctKeys_ofSlots? hasDistinctKeys_dataMembers? h

theorem hasDistinctKeys_ofYaml? {text : String} {outline : Outline} (h : ofYaml? text = some outline) :
    (Data.obj outline.fields).HasDistinctKeys := by
  simp only [ofYaml?, Option.bind_eq_bind, Option.bind_eq_some_iff] at h
  obtain ⟨_, -, _, -, slots, -, h⟩ := h
  exact hasDistinctKeys_ofSlots? hasDistinctKeys_nodeMembers? h

theorem wellFormed_definition {validators : Validators} {outline : Outline} {definition : ProfileDefinition}
    (hdistinct : (Data.obj outline.fields).HasDistinctKeys)
    (h : outline.definition validators = .ok definition) : Schema.WellFormed definition.schema := by
  obtain ⟨schema, hschema, h⟩ := bind_eq_ok.mp h
  obtain rfl := Except.ok.inj h
  exact (FieldDefinition.wellFormed_readFields outline.fields hdistinct.1 hdistinct.2 hschema).1

end Outline

/-- **Definitions are well-formed.** So is the schema of every definition that is read. -/
theorem wellFormed_of_read {validators : Validators} {format : Format} {text : String}
    {definition : ProfileDefinition} (h : read validators format text = .ok definition) :
    Schema.WellFormed definition.schema := by
  cases format with
  | json =>
    rw [read] at h
    split at h
    · rename_i outline houtline
      exact outline.wellFormed_definition (Outline.hasDistinctKeys_ofJson? houtline) h
    · cases h
  | yaml =>
    rw [read] at h
    split at h
    · rename_i outline houtline
      exact outline.wellFormed_definition (Outline.hasDistinctKeys_ofYaml? houtline) h
    · cases h

end ProfileDefinition

end InvoiceXml
