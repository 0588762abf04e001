import InvoiceXml.Proofs.Restriction
import InvoiceXml.Proofs.Standard.Invoice
import InvoiceXml.Proofs.Standard.WellFormed

/-!
# What the standard levels accept

Each level keeps the fields of the level below it: what it declares again has the same type, and
must be given as before. So a level accepts less than those below it, and these give of its normal
form what they declare.

* `keptBy_ownSchema`: what a level declares keeps the fields of the level right below;
* `fieldsExtend_of_mem_before`: the merged schema of a level extends those of all levels below it;
* **`validate_lower`**: data that is valid under a layer is valid without it, and data that is valid
  for a level is valid for the levels below it.
-/

namespace InvoiceXml.Level

open Schema (WellFormed FieldsExtend)

/-- Every level but the smallest has one right below it. -/
theorem exists_right_below (level : Level) :
    level.before = [] ∨ ∃ lower : Level, level.before = lower.before ++ [lower] := by
  cases level with
  | minimum => exact .inl rfl
  | basicWithoutLines => exact .inr ⟨minimum, rfl⟩
  | basic => exact .inr ⟨basicWithoutLines, rfl⟩
  | core => exact .inr ⟨basic, rfl⟩
  | extended => exact .inr ⟨core, rfl⟩

variable {lower upper : Level}

theorem right_below_cases (h : upper.before = lower.before ++ [lower]) :
    (lower = minimum ∧ upper = basicWithoutLines) ∨ (lower = basicWithoutLines ∧ upper = basic) ∨
      (lower = basic ∧ upper = core) ∨ (lower = core ∧ upper = extended) := by
  cases upper <;> cases lower <;> first | (cases h; done) | simp

/-- The merged schema of a level is what it declares over that of the level right below. -/
theorem mergedSchema_of_right_below (h : upper.before = lower.before ++ [lower]) :
    upper.profile.mergedSchema = lower.profile.mergedSchema.merge upper.ownSchema := by
  rw [mergedSchema_profile, mergedSchema_profile, h, List.map_append, List.map_singleton,
    Schema.ofLayers_append_singleton]

/-- What is declared again has the type that it had. -/
theorem type_ownSchema (h : upper.before = lower.before ++ [lower]) :
    ∀ pair ∈ lower.profile.mergedSchema.overlay upper.ownSchema,
      pair.1.map (·.type) = pair.1.map fun _ => pair.2.type := by
  rw [← List.map_inj_left]
  rcases right_below_cases h with ⟨rfl, rfl⟩ | ⟨rfl, rfl⟩ | ⟨rfl, rfl⟩ | ⟨rfl, rfl⟩
  all_goals rfl

/-- What is declared again must be given as before. -/
theorem required_ownSchema (h : upper.before = lower.before ++ [lower]) :
    ∀ pair ∈ lower.profile.mergedSchema.overlay upper.ownSchema,
      ∀ old ∈ pair.1, pair.2.required = none ∨ pair.2.required = some old.isRequired := by
  rcases right_below_cases h with ⟨rfl, rfl⟩ | ⟨rfl, rfl⟩ | ⟨rfl, rfl⟩ | ⟨rfl, rfl⟩
  all_goals decide +kernel

/-- **A level keeps the fields of the level right below it.** -/
theorem keptBy_ownSchema (h : upper.before = lower.before ++ [lower]) (old field : Field)
    (hpair : (some old, field) ∈ lower.profile.mergedSchema.overlay upper.ownSchema) : old.KeptBy field := by
  have htype : old.type = field.type := Option.some.inj (type_ownSchema h _ hpair)
  exact ⟨htype ▸ old.type.isSameKind_self, required_ownSchema h _ hpair old rfl, fun _ _ _ => htype ▸ rfl⟩

/-- The merged schema of a level extends that of the level right below. -/
theorem fieldsExtend_of_right_below (h : upper.before = lower.before ++ [lower]) :
    FieldsExtend Field.Agrees (fun _ => True) lower.profile.mergedSchema upper.profile.mergedSchema := by
  rw [mergedSchema_of_right_below h]
  exact Schema.fieldsExtend_merge_of_kept lower.wellFormed_mergedSchema upper.wellFormed_ownSchema
    (keptBy_ownSchema h)

/-- The merged schema of a level extends those of all levels below it. -/
theorem fieldsExtend_of_mem_before (hlower : lower ∈ upper.before) :
    FieldsExtend Field.Agrees (fun _ => True) lower.profile.mergedSchema upper.profile.mergedSchema := by
  induction hrank : upper.before.length generalizing upper with
  | zero =>
    rw [List.length_eq_zero_iff.mp hrank] at hlower
    cases hlower
  | succ rank ih =>
    rcases exists_right_below upper with hnone | ⟨middle, hmiddle⟩
    · rw [hnone] at hlower
      cases hlower
    · have hstep := fieldsExtend_of_right_below hmiddle
      rw [hmiddle, List.mem_append, List.mem_singleton] at hlower
      rcases hlower with hbelow | rfl
      · have hrank : middle.before.length = rank := by simpa [hmiddle] using hrank
        refine Schema.fieldsExtend_trans ?_ (fun _ _ _ _ => trivial) (ih hbelow hrank) hstep
        exact fun _ _ _ => Field.Agrees.trans
      · exact hstep

/-- **Levels accept less than those below them.** Data that is valid under a layer over a schema,
which keeps the fields of the schema, is valid under the schema; and data that is valid for a level
is valid for every level below. The normal form is what is declared of the one above. -/
theorem validate_lower :
    (∀ (base layer : Schema) (input normal : Data), WellFormed base → WellFormed layer →
      (∀ old field, (some old, field) ∈ base.overlay layer → old.KeptBy field) →
      (base.merge layer).validate input = .ok normal → base.validate input = .ok (normal.restrict base)) ∧
    ∀ (lower upper : Level) (input normal : Data), lower ∈ upper.before →
      upper.profile.mergedSchema.validate input = .ok normal →
        lower.profile.mergedSchema.validate input = .ok (normal.restrict lower.profile.mergedSchema) := by
  refine ⟨fun base layer input normal => Schema.validate_of_validate_merge, ?_⟩
  intro lower upper input normal hlower h
  exact Schema.validate_of_fieldsExtend (fieldsExtend_of_mem_before hlower) upper.wellFormed_mergedSchema h

theorem validate_lower_reducedInvoice :
    ∃ normal, basic.profile.mergedSchema.validate reducedInvoice = .ok normal ∧
      basicWithoutLines.profile.mergedSchema.validate reducedInvoice =
        .ok (normal.restrict basicWithoutLines.profile.mergedSchema) ∧
      minimum.profile.mergedSchema.validate reducedInvoice =
        .ok (normal.restrict minimum.profile.mergedSchema) := by
  have hok : (basic.profile.mergedSchema.validate reducedInvoice).toOption.isSome = true := by decide +kernel
  cases hnormal : basic.profile.mergedSchema.validate reducedInvoice with
  | error error =>
    rw [hnormal] at hok
    cases hok
  | ok normal =>
    have hbelow : basic.before = basicWithoutLines.before ++ [basicWithoutLines] := rfl
    refine ⟨normal, rfl,
      validate_lower.1 _ basic.ownSchema _ _ basicWithoutLines.wellFormed_mergedSchema
        basic.wellFormed_ownSchema (keptBy_ownSchema hbelow) ?_,
      validate_lower.2 _ basic _ _ (by decide) hnormal⟩
    rw [← mergedSchema_of_right_below hbelow, hnormal]

end InvoiceXml.Level
