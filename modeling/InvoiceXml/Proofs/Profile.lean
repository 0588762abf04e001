import InvoiceXml.Profile
import Mathlib.Data.List.Basic

/-!
# What settings make of a profile

A profile is built by settings in any number and order, and its parents are built in the same way.
Extending a parent replaces all that was set and extended before. Every other setting replaces one
attribute and leaves the rest (`Profile.Attribute`). So the last extension decides the ancestors,
and of every attribute the last setting after it.

* `layers_foldl_set`: the layers change only when another profile is extended;
* `Attribute.value_foldl_set`: without extensions an attribute has the value that was given last, or
  the one before;
* **`build_follows_last`**: what every sequence of settings comes to, whatever the parent.
-/

namespace InvoiceXml.Profile

variable {settings : List Setting}

/-! ### Attributes -/

/-- Something that a profile says about itself: its value, and the value that a setting gives to it.
A setting that gives none leaves the value as it is, unless it extends a parent. -/
structure Attribute (α : Type) where
  value : ProfileInfo → α
  given? : Setting → Option α
  value_set : ∀ (profile : Profile) (setting : Setting), (∀ parent, setting ≠ .extending parent) →
      value (profile.set setting).info = (given? setting).getD (value profile.info) := by
    intro _ setting h
    cases setting with
    | extending parent => exact absurd rfl (h parent)
    | _ => rfl

namespace Attribute

variable {α : Type}

def mask : Attribute (Dictionary String) where
  value := (·.mask)
  given?
    | .mask entries => some (Dictionary.ofList entries)
    | _ => none

def contextParameter : Attribute String where
  value := (·.contextParameter)
  given?
    | .contextParameter value => some value
    | _ => none

def xsdPath : Attribute String where
  value := (·.xsdPath)
  given?
    | .xsdPath path => some path
    | _ => none

def conformanceLevel : Attribute String where
  value := (·.conformanceLevel)
  given?
    | .conformanceLevel level => some level
    | _ => none

def documentFileName : Attribute String where
  value := (·.documentFileName)
  given?
    | .documentFileName name => some name
    | _ => none

def documentType : Attribute String where
  value := (·.documentType)
  given?
    | .documentType documentType => some documentType
    | _ => none

def version : Attribute String where
  value := (·.version)
  given?
    | .version version => some version
    | _ => none

def root : Attribute DocumentRoot where
  value := (·.root)
  given?
    | .root root => some root
    | _ => none

/-- The value that settings give last, or the one before them if none gives one. -/
def after (attr : Attribute α) (settings : List Setting) (before : ProfileInfo) : α :=
  (settings.filterMap attr.given?).getLast?.getD (attr.value before)

theorem after_cons (attr : Attribute α) (setting : Setting) (settings : List Setting) (before : ProfileInfo) :
    attr.after (setting :: settings) before =
      (settings.filterMap attr.given?).getLast?.getD ((attr.given? setting).getD (attr.value before)) := by
  rw [after, List.filterMap_cons]
  cases attr.given? setting with
  | none => rfl
  | some value => rw [List.getLast?_cons, Option.getD_some, Option.getD_some]

/-- **The last setting decides.** -/
theorem value_foldl_set (attr : Attribute α) (h : ∀ parent, Setting.extending parent ∉ settings)
    (profile : Profile) :
    attr.value (settings.foldl set profile).info = attr.after settings profile.info := by
  induction settings generalizing profile with
  | nil => rfl
  | cons setting rest ih =>
    have hown : ∀ parent, setting ≠ .extending parent := fun parent heq => h parent (heq ▸ List.mem_cons_self)
    rw [List.foldl_cons, ih fun parent hmem => h parent (List.mem_cons_of_mem _ hmem), after_cons, after,
      attr.value_set profile setting hown]

end Attribute

/-- Whether of every attribute the value is the one that settings give last, or else the one before them. -/
structure SettledBy (settings : List Setting) (before info : ProfileInfo) : Prop where
  mask : info.mask = Attribute.mask.after settings before
  contextParameter : info.contextParameter = Attribute.contextParameter.after settings before
  xsdPath : info.xsdPath = Attribute.xsdPath.after settings before
  conformanceLevel : info.conformanceLevel = Attribute.conformanceLevel.after settings before
  documentFileName : info.documentFileName = Attribute.documentFileName.after settings before
  documentType : info.documentType = Attribute.documentType.after settings before
  version : info.version = Attribute.version.after settings before
  root : info.root = Attribute.root.after settings before

theorem settledBy_foldl_set (h : ∀ parent, Setting.extending parent ∉ settings) (profile : Profile) :
    SettledBy settings profile.info (settings.foldl set profile).info where
  mask := Attribute.mask.value_foldl_set h profile
  contextParameter := Attribute.contextParameter.value_foldl_set h profile
  xsdPath := Attribute.xsdPath.value_foldl_set h profile
  conformanceLevel := Attribute.conformanceLevel.value_foldl_set h profile
  documentFileName := Attribute.documentFileName.value_foldl_set h profile
  documentType := Attribute.documentType.value_foldl_set h profile
  version := Attribute.version.value_foldl_set h profile
  root := Attribute.root.value_foldl_set h profile

/-! ### Ancestors -/

/-- No setting changes the id and the schema of the profile itself. -/
theorem own_foldl_set (settings : List Setting) (profile : Profile) :
    (settings.foldl set profile).id = profile.id ∧ (settings.foldl set profile).schema = profile.schema := by
  induction settings generalizing profile with
  | nil => exact ⟨rfl, rfl⟩
  | cons setting rest ih =>
    obtain ⟨hid, hschema⟩ := ih (profile.set setting)
    rw [List.foldl_cons, hid, hschema]
    cases setting <;> exact ⟨rfl, rfl⟩

/-- Whatever a profile says about itself, its layers stay as they are; only extending another one
changes them. -/
theorem layers_foldl_set (h : ∀ parent, Setting.extending parent ∉ settings) (profile : Profile) :
    (settings.foldl set profile).layers = profile.layers := by
  induction settings generalizing profile with
  | nil => rfl
  | cons setting rest ih =>
    rw [List.foldl_cons, ih fun parent hmem => h parent (List.mem_cons_of_mem _ hmem)]
    cases setting with
    | extending parent => exact absurd List.mem_cons_self (h parent)
    | _ => rfl

section Extending

variable (id : String) (schema : Schema) (before : List Setting) {after : List Setting} (parent : Profile)

/-- What was set before the last extension is only the id and the schema of the profile. -/
theorem build_extending :
    build id schema (before ++ .extending parent :: after) =
      after.foldl set ((before.foldl set (ofSchema id schema)).set (.extending parent)) := by
  rw [build, List.foldl_append, List.foldl_cons]

/-- The layers of a profile are those of the last one that it extends, and its own. -/
theorem layers_build_extending (hlast : ∀ other, Setting.extending other ∉ after) :
    (build id schema (before ++ .extending parent :: after)).layers = parent.layers ++ [(id, schema)] := by
  obtain ⟨hid, hschema⟩ := own_foldl_set before (ofSchema id schema)
  rw [build_extending, layers_foldl_set hlast, layers_extending, hid, hschema]
  rfl

/-- So its merged schema is its own over that of the last one that it extends. -/
theorem mergedSchema_build_extending (hlast : ∀ other, Setting.extending other ∉ after) :
    (build id schema (before ++ .extending parent :: after)).mergedSchema =
      parent.mergedSchema.merge schema := by
  rw [mergedSchema, layers_build_extending id schema before parent hlast, List.map_append, Schema.ofLayers,
    List.foldl_append]
  rfl

end Extending

/-- **The last extension and the last settings after it decide.** A profile that extends none has
itself as its lineage, and of every attribute what is given last, or what the profile of the bare
schema has. Else, whatever is set and extended before the last extension, the lineage is that of the
parent and the profile, the merged schema is the own one over that of the parent, and of every
attribute there is what is given last after the extension, or what the parent has. -/
theorem build_follows_last (id : String) (schema : Schema) (settings : List Setting) :
    let profile := build id schema settings
    profile.id = id ∧ profile.schema = schema ∧
      ((∀ parent, .extending parent ∉ settings) →
        profile.lineage = [profile.id] ∧ SettledBy settings (ofSchema id schema).info profile.info) ∧
      ∀ before parent after, settings = before ++ .extending parent :: after →
        (∀ other, .extending other ∉ after) →
        profile.lineage = parent.lineage ++ [profile.id] ∧
          profile.mergedSchema = parent.mergedSchema.merge profile.schema ∧
              SettledBy after parent.info profile.info := by
  intro profile
  have hid : profile.id = id := (own_foldl_set settings (ofSchema id schema)).1
  have hschema : profile.schema = schema := (own_foldl_set settings (ofSchema id schema)).2
  refine ⟨hid, hschema, fun hown => ⟨?_, settledBy_foldl_set hown (ofSchema id schema)⟩, ?_⟩
  · have hlayers : profile.layers = [(id, schema)] := layers_foldl_set hown (ofSchema id schema)
    rw [lineage, hlayers, hid]
    rfl
  · rintro before parent after rfl hlast
    have hlayers : profile.layers = parent.layers ++ [(id, schema)] :=
      layers_build_extending id schema before parent hlast
    have hmerged : profile.mergedSchema = parent.mergedSchema.merge schema :=
      mergedSchema_build_extending id schema before parent hlast
    have hsettled : SettledBy after parent.info profile.info := by
      have hfolded :=
        settledBy_foldl_set hlast ((before.foldl set (ofSchema id schema)).set (.extending parent))
      rwa [← build_extending] at hfolded
    refine ⟨?_, hschema ▸ hmerged, hsettled⟩
    rw [lineage, hlayers, hid, List.map_append]
    rfl

/-- Three profiles, each over the one before. What the second is set to be and extends before it
extends the first is lost, and the third has from the second what that has from the first. -/
theorem build_follows_last_threeProfiles :
    let first :=
      build "a" [("number", Field.ofChoice ["1"])] [.xsdPath "x.xsd", .conformanceLevel "A", .xsdPath "a.xsd"]
    let second := build "b" [("note", Field.ofChoice ["n"])]
      [.version "2", .extending (ofSchema "x" []), .extending first, .conformanceLevel "B"]
    let third :=
      build "c" [("number", Field.ofChoice ["1", "2"])] [.extending second, .documentType "INVOICE"]
    first.lineage = ["a"] ∧
      SettledBy [.xsdPath "x.xsd", .conformanceLevel "A", .xsdPath "a.xsd"]
        (ofSchema "a" first.schema).info first.info ∧
      second.lineage = first.lineage ++ ["b"] ∧ second.mergedSchema = first.mergedSchema.merge second.schema ∧
      SettledBy [.conformanceLevel "B"] first.info second.info ∧ second.info.version = "" ∧
      third.lineage = ["a", "b", "c"] ∧ third.mergedSchema = second.mergedSchema.merge third.schema ∧
      SettledBy [.documentType "INVOICE"] second.info third.info ∧ third.info.xsdPath = "a.xsd" ∧
      third.info.conformanceLevel = "B" := by
  intro first second third
  obtain ⟨hline, hsettled⟩ := (build_follows_last "a" first.schema
    [.xsdPath "x.xsd", .conformanceLevel "A", .xsdPath "a.xsd"]).2.2.1 (by simp)
  obtain ⟨hsecondLine, hsecondMerged, hsecondSettled⟩ := (build_follows_last "b" second.schema
    [.version "2", .extending (ofSchema "x" []), .extending first, .conformanceLevel "B"]).2.2.2
      [.version "2", .extending (ofSchema "x" [])] first [.conformanceLevel "B"] rfl (by simp)
  obtain ⟨hthirdLine, hthirdMerged, hthirdSettled⟩ := (build_follows_last "c" third.schema
    [.extending second, .documentType "INVOICE"]).2.2.2 [] second [.documentType "INVOICE"] rfl (by simp)
  exact ⟨hline, hsettled, hsecondLine, hsecondMerged, hsecondSettled, rfl, hthirdLine, hthirdMerged,
    hthirdSettled, rfl, rfl⟩

end InvoiceXml.Profile
