import InvoiceXml.Proofs.Path.Reader

/-!
# Written paths

A path that is read, or joined from paths that are read, is described by a derivation of the
grammar. Its text is derived, too: by the same derivation, but with each numeral as it is written
(`PathForm.plain`). So

* **`readPath_render`**: such a path is read back from its text, and it has the text that it was
  read from if and only if no numeral there has a superfluous zero.
-/

namespace InvoiceXml.Path

/-! ### Numerals as they are written -/

namespace SelectorForm

/-- Whether a selector is a numeral with a superfluous zero. -/
def IsPadded : SelectorForm → Prop
  | numeral digits _ _ _ => Text.IsPadded digits
  | identifier _ _ _ _ => False

/-- The selector with the numeral as it is written. -/
def plain : SelectorForm → SelectorForm
  | numeral digits _ _ inRange =>
    numeral (Text.digits (Text.numeralValue digits)) (Text.digits_ne_nil _)
      (fun _ => Text.isDigit_of_mem_digits)
      (by rwa [Text.numeralValue_digits])
  | identifier first rest starts continues => identifier first rest starts continues

theorem selector_plain (form : SelectorForm) : form.plain.selector = form.selector := by
  cases form with
  | numeral digits => exact congrArg Selector.index (Text.numeralValue_digits _)
  | identifier => rfl

theorem chars_plain (form : SelectorForm) : form.plain.chars = form.selector.text.toList := by
  cases form with
  | numeral digits => exact (String.toList_ofList).symm
  | identifier => exact (String.toList_ofList).symm

theorem plain_eq_self_iff (form : SelectorForm) : form.plain = form ↔ ¬form.IsPadded := by
  cases form with
  | numeral digits ne_nil isDigit inRange =>
    rw [plain, numeral.injEq]
    exact Text.digits_numeralValue_iff ne_nil isDigit
  | identifier => exact iff_of_true rfl id

end SelectorForm

namespace StepForm

/-- Whether the selector of a step is a numeral with a superfluous zero. -/
def IsPadded (form : StepForm) : Prop := ∃ selector ∈ form.selector, selector.IsPadded

/-- The step with a numeral as it is written. -/
def plain (form : StepForm) : StepForm := { form with selector := form.selector.map SelectorForm.plain }

theorem step_plain (form : StepForm) : form.plain.step = form.step := by
  rw [step, step, plain, Option.map_map]
  exact congrArg _ (Option.map_congr fun selector _ => selector.selector_plain)

theorem chars_plain (form : StepForm) : form.plain.chars = form.step.render.toList := by
  obtain ⟨name, selector⟩ := form
  cases selector with
  | none => exact String.toList_ofList.symm
  | some selector =>
    simp only [plain, chars, step, Step.render, Option.map_some, selector.chars_plain, String.toList_append,
      QNameForm.text, String.toList_ofList, List.append_assoc]
    rfl

theorem plain_eq_self_iff (form : StepForm) : form.plain = form ↔ ¬form.IsPadded := by
  obtain ⟨name, selector⟩ := form
  rw [plain, StepForm.mk.injEq, IsPadded]
  cases selector with
  | none => simp
  | some selector => simp [selector.plain_eq_self_iff]

end StepForm

namespace PathForm

/-- Whether one of the steps has a numeral with a superfluous zero. -/
def IsPadded (form : PathForm) : Prop := ∃ step ∈ form.steps, step.IsPadded

/-- The path with each numeral as it is written. -/
def plain : PathForm → PathForm
  | absolute first rest attr => absolute first.plain (rest.map StepForm.plain) attr
  | relative first rest attr => relative first.plain (rest.map StepForm.plain) attr
  | lone name => lone name

theorem isAbsolute_plain (form : PathForm) : form.plain.isAbsolute = form.isAbsolute := by cases form <;> rfl

theorem steps_plain (form : PathForm) : form.plain.steps = form.steps.map StepForm.plain := by
  cases form <;> rfl

theorem attr_plain (form : PathForm) : form.plain.attr = form.attr := by cases form <;> rfl

theorem path_plain (form : PathForm) : form.plain.path = form.path := by
  rw [path_eq, path_eq, isAbsolute_plain, steps_plain, attr_plain, List.map_map]
  exact congrArg (fun steps => ({ absolute := form.isAbsolute, steps, attr := _ } : Path))
    (List.map_congr_left fun step _ => step.step_plain)

/-- The text of a path is derived with its numerals as they are written. -/
theorem chars_plain (form : PathForm) : form.plain.chars = form.path.render.toList := by
  have hparts : form.path.parts.map String.toList = partsOf form.plain.steps form.plain.attr := by
    rw [path_eq, parts, partsOf, steps_plain, attr_plain, List.map_append, List.map_map,
      List.map_map, List.map_map]
    congr 1
    · exact List.map_congr_left fun step _ => step.chars_plain.symm
    · cases form.attr with
      | none => rfl
      | some name => simp [QNameForm.text]
  have hne : form.path.parts ≠ [] := fun hnil => form.plain.partsOf_ne_nil (by rw [← hparts, hnil]; rfl)
  have hroot : form.path.absolute = form.isAbsolute := congrArg Path.absolute form.path_eq
  rw [chars_eq, isAbsolute_plain, ← hparts, render, String.toList_append, Text.joined,
    String.toList_ofList, hroot]
  cases form.isAbsolute with
  | true => rw [if_pos rfl, if_pos ⟨rfl, hne⟩]; rfl
  | false => rfl

theorem plain_eq_self_iff (form : PathForm) : form.plain = form ↔ ¬form.IsPadded := by
  have hsteps : form.plain = form ↔ form.steps.map StepForm.plain = form.steps := by
    rw [← steps_plain]
    exact ⟨congrArg steps, fun h => ext_parts form.isAbsolute_plain h form.attr_plain⟩
  have heach : form.steps.map StepForm.plain = form.steps ↔ ∀ step ∈ form.steps, step.plain = step := by
    simpa using List.map_inj_left (f := StepForm.plain) (g := id) (l := form.steps)
  rw [hsteps, heach, IsPadded]
  simp [StepForm.plain_eq_self_iff]

/-- What two derivations describe is joined to what a derivation describes. -/
theorem exists_path_eq_join (form relative : PathForm) :
    ∃ joined : PathForm, joined.path = form.path.join relative.path := by
  by_cases habsolute : relative.path.absolute = true
  · exact ⟨relative, (join_of_absolute _ habsolute).symm⟩
  · -- what the relative path has of steps and attribute, the joined path has, too
    have hparts : partsOf (form.steps ++ relative.steps) relative.attr ≠ [] := by
      rw [partsOf, List.map_append, List.append_assoc]
      exact List.append_ne_nil_of_right_ne_nil _ relative.partsOf_ne_nil
    obtain ⟨joined, hroot, hsteps, hattr⟩ := exists_of_parts form.isAbsolute hparts fun h =>
      List.append_ne_nil_of_left_ne_nil (steps_ne_nil h) _
    refine ⟨joined, ?_⟩
    rw [join, if_neg habsolute, joined.path_eq, hroot, hsteps, hattr, form.path_eq,
      relative.path_eq, List.map_append]

end PathForm

/-! ### Reading back -/

/-- Whether a path is read from a text, or joined from such paths. -/
inductive Obtained : Path → Prop
  | read {text path} : SchemaError.readPath text = .ok path → Obtained path
  | join {path relative} : Obtained path → Obtained relative → Obtained (path.join relative)

theorem Obtained.exists_form {path : Path} (h : path.Obtained) : ∃ form : PathForm, form.path = path := by
  induction h with
  | read hread =>
    obtain ⟨form, -, hpath⟩ := readPath_eq_ok_iff.mp hread
    exact ⟨form, hpath⟩
  | join _ _ ih ihRelative =>
    obtain ⟨form, rfl⟩ := ih
    obtain ⟨relative, rfl⟩ := ihRelative
    exact form.exists_path_eq_join relative

/-- **Written paths are read back.** A path that was read or joined is read from its text, and the
text that it was read from is its own unless a numeral in it has a superfluous zero. -/
theorem readPath_render {path : Path} (h : path.Obtained) :
    SchemaError.readPath path.render = .ok path ∧
      ∀ text, SchemaError.readPath text = .ok path →
        ∃ form : PathForm, form.chars = text.toList ∧ (path.render = text ↔ ¬form.IsPadded) := by
  constructor
  · obtain ⟨form, rfl⟩ := h.exists_form
    exact readPath_eq_ok_iff.mpr ⟨form.plain, form.chars_plain, form.path_plain⟩
  · intro text hread
    obtain ⟨form, hchars, rfl⟩ := readPath_eq_ok_iff.mp hread
    refine ⟨form, hchars, ?_⟩
    rw [← String.toList_inj, ← form.chars_plain, ← hchars, ← form.plain_eq_self_iff]
    exact ⟨PathForm.chars_injective, congrArg PathForm.chars⟩

theorem readPath_render_joined :
    ∃ base relative, SchemaError.readPath "/a[g]/b[07]/@x" = .ok base ∧
      SchemaError.readPath "c/@y" = .ok relative ∧
      (base.join relative).Obtained ∧ SchemaError.readPath (base.join relative).render =
        .ok (base.join relative) ∧
        (base.join relative).render = "/a[g]/b[7]/c/@y" ∧
          ∃ form : PathForm, form.chars = "/a[g]/b[07]/@x".toList ∧ form.IsPadded := by
  have hbase : SchemaError.readPath "/a[g]/b[07]/@x" =
      .ok ⟨true, [⟨"a", some (.group "g")⟩, ⟨"b", some (.index 7)⟩], some "x"⟩ := rfl
  have hrelative : SchemaError.readPath "c/@y" = .ok ⟨false, [⟨"c", none⟩], some "y"⟩ := rfl
  have hjoined := Obtained.join (.read hbase) (.read hrelative)
  obtain ⟨form, hchars, hpadded⟩ := (readPath_render (.read hbase)).2 _ hbase
  refine ⟨_, _, hbase, hrelative, hjoined, (readPath_render hjoined).1, by decide +kernel, form, hchars, ?_⟩
  by_contra hplain
  exact absurd (hpadded.mpr hplain) (by decide +kernel)

end InvoiceXml.Path
