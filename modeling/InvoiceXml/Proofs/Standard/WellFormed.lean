import InvoiceXml.Definition.Extension
import InvoiceXml.Proofs.Definition
import InvoiceXml.Proofs.Profile
import Mathlib.Data.List.Infix

/-!
# Well-formed profiles

The merged schema of every standard level is well-formed, and so is the schema of every definition.
A definition over a level is well-formed iff it makes no scalar of an object or an array without
fields, such as the delivery of the minimum.

* `mergedSchema_profile`: the merged schema of a definition over a profile is its own over that of
  the profile;
* **`wellFormed_layers`**: when layers are well-formed, and definitions over levels among them.
-/

namespace InvoiceXml

namespace ProfileDefinition

/-- The merged schema of a definition over a profile is its own over that of the profile. -/
theorem mergedSchema_profile (definition : ProfileDefinition) (parent : Profile) :
    (definition.profile (some parent)).mergedSchema = Schema.merge parent.mergedSchema definition.schema := by
  rw [profile, settings, Option.map_some, Option.toList_some, List.append_assoc, List.append_assoc,
    List.append_assoc, List.singleton_append]
  refine Profile.mergedSchema_build_extending definition.id definition.schema [] parent fun other hmem => ?_
  simp [List.mem_append] at hmem

end ProfileDefinition

namespace Level

/-- The merged schema of every level is well-formed. -/
theorem wellFormed_mergedSchema (level : Level) : Schema.WellFormed level.profile.mergedSchema := by
  cases level <;> decide +kernel

/-- So is what every level declares. -/
theorem wellFormed_ownSchema (level : Level) : Schema.WellFormed level.ownSchema := by
  cases level <;> decide +kernel

/-- The text of a definition with one field, a scalar. -/
def scalarDefinition (name type : String) : String :=
  "id: x\nfields:\n  " ++ name ++ ":\n    type: " ++ type ++ "\n"

/-- **When layers are well-formed.** A layer over a schema, both well-formed, is so iff it makes no
scalar of an object or an array without fields, and a chain of them is so at every step iff no step
does. In particular this decides whether a definition over a standard level is well-formed. -/
theorem wellFormed_layers {base layer : Schema} (hbase : Schema.WellFormed base)
    (hlayer : Schema.WellFormed layer) {layers : List Schema}
    (hlayers : ∀ layer ∈ layers, Schema.WellFormed layer) (level : Level) {validators : Validators}
    {format : ProfileDefinition.Format} {text : String} {definition : ProfileDefinition}
    (hread : ProfileDefinition.read validators format text = .ok definition) :
    (Schema.WellFormed (base.merge layer) ↔ ¬Schema.LeavesShape base layer) ∧
      ((∀ before after, layers = before ++ after → Schema.WellFormed (Schema.ofLayers before)) ↔
        ∀ before layer after, layers = before ++ layer :: after →
          ¬Schema.LeavesShape (Schema.ofLayers before) layer) ∧
      (Schema.WellFormed (definition.profile (some level.profile)).mergedSchema ↔
        ¬Schema.LeavesShape level.profile.mergedSchema definition.schema) := by
  refine ⟨Schema.wellFormed_merge layer hbase hlayer, Schema.wellFormed_ofLayers_iff hlayers, ?_⟩
  rw [definition.mergedSchema_profile level.profile]
  exact Schema.wellFormed_merge definition.schema level.wellFormed_mergedSchema
    (ProfileDefinition.wellFormed_of_read hread)

/-- A text that gives a definition with a property, as it is computed. -/
theorem exists_definition {text : String} {check : ProfileDefinition → Bool}
    (h : (ProfileDefinition.read .standard .yaml text).toOption.any check = true) :
    ∃ definition, ProfileDefinition.read .standard .yaml text = .ok definition ∧ check definition = true := by
  cases hread : ProfileDefinition.read .standard .yaml text with
  | error error =>
    rw [hread] at h
    cases h
  | ok definition =>
    rw [hread] at h
    exact ⟨definition, rfl, h⟩

theorem wellFormed_layers_reference :
    Schema.WellFormed (minimum.ownSchema.merge basicWithoutLines.ownSchema) ∧
    (∀ before layer after, all.map ownSchema = before ++ layer :: after →
      ¬Schema.LeavesShape (Schema.ofLayers before) layer) ∧
    ∃ definition, ProfileDefinition.read .standard .yaml (scalarDefinition "reference" "string") =
      .ok definition ∧
      Schema.WellFormed (definition.profile (some minimum.profile)).mergedSchema := by
  have hread :
      (ProfileDefinition.read .standard .yaml (scalarDefinition "reference" "string")).toOption.any
        (fun definition => decide ¬Schema.LeavesShape minimum.profile.mergedSchema definition.schema) =
          true := by
    decide +kernel
  obtain ⟨definition, hdefined, hleaves⟩ := exists_definition hread
  have hinits : ∀ layers ∈ (all.map ownSchema).inits, Schema.WellFormed (Schema.ofLayers layers) := by
    decide +kernel
  obtain ⟨hmerge, hchain, hdefinition⟩ := wellFormed_layers minimum.wellFormed_ownSchema
    basicWithoutLines.wellFormed_ownSchema
    (by decide +kernel : ∀ layer ∈ all.map ownSchema, Schema.WellFormed layer) minimum hdefined
  refine ⟨hmerge.mpr (by decide +kernel), hchain.mp fun before after heq => ?_, definition, hdefined,
    hdefinition.mpr (of_decide_eq_true hleaves)⟩
  exact hinits before ((List.mem_inits before _).mpr ⟨after, heq.symm⟩)

/-- The delivery of the minimum is an object without fields. A definition that makes a text of it is
well-formed, but the text has a shape over the minimum. -/
theorem not_wellFormed_scalarDelivery :
    Schema.WellFormed minimum.profile.mergedSchema ∧
    ∃ definition, ProfileDefinition.read .standard .yaml (scalarDefinition "delivery" "string") =
      .ok definition ∧
      Schema.WellFormed definition.schema ∧
      ¬Schema.WellFormed (definition.profile (some minimum.profile)).mergedSchema := by
  have hread : (ProfileDefinition.read .standard .yaml (scalarDefinition "delivery" "string")).toOption.any
      (fun definition =>
          decide (Schema.LeavesShape minimum.profile.mergedSchema definition.schema)) = true := by
    decide +kernel
  obtain ⟨definition, hdefined, hleaves⟩ := exists_definition hread
  have hformed := ProfileDefinition.wellFormed_of_read hdefined
  refine ⟨wellFormed_mergedSchema minimum, definition, hdefined, hformed, fun h => ?_⟩
  rw [definition.mergedSchema_profile minimum.profile] at h
  exact (Schema.wellFormed_merge definition.schema minimum.wellFormed_mergedSchema hformed).mp h
    (of_decide_eq_true hleaves)

end Level

end InvoiceXml
