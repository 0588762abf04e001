import InvoiceXml.Proofs.Path.Grammar
import InvoiceXml.Proofs.Text.Numeral
import InvoiceXml.Schema.Error

/-!
# Reading is deriving

Paths are read by cutting: at the slashes, at the first bracket, at the first colon. One lemma for
each step of this says that what is read there is what the grammar derives there (`isQName_iff`,
`readSelector_eq_ok_iff`, `readStep_eq_ok_iff`, `readChars_eq_ok_iff`), and so

* **`readPath_derives`**: a text is read as a path if and only if the grammar derives it, and then
  as the path that the one derivation of it describes; any other text is an invalid path.
-/

namespace InvoiceXml

/-- A run of two steps succeeds if the first does and the second does with what the first gives. -/
theorem bind_eq_ok {ε α β : Type} {run : Except ε α} {next : α → Except ε β} {b : β} :
    run >>= next = .ok b ↔ ∃ a, run = .ok a ∧ next a = .ok b := by
  cases run <;> simp [bind, Except.bind]

namespace Path

/-! ### Names -/

theorem isName_iff {cs : List Char} : isName cs = true ↔ ∃ form : NameForm, form.chars = cs := by
  constructor
  · intro h
    cases cs with
    | nil => cases h
    | cons c cs =>
      rw [isName, Bool.and_eq_true, List.all_eq_true] at h
      exact ⟨⟨c, cs, startsName_iff.mp h.1, fun d hd => continuesName_iff.mp (h.2 d hd)⟩, rfl⟩
  · rintro ⟨form, rfl⟩
    rw [NameForm.chars, isName, Bool.and_eq_true, List.all_eq_true]
    exact ⟨form.startsName_first, fun c hc => continuesName_iff.mpr (form.continues c hc)⟩

theorem isQName_iff {cs : List Char} : isQName cs = true ↔ ∃ form : QNameForm, form.chars = cs := by
  constructor
  · intro h
    rw [isQName] at h
    split at h
    · rename_i scope name hcut
      rw [Bool.and_eq_true] at h
      obtain ⟨scope, rfl⟩ := isName_iff.mp h.1
      obtain ⟨name, rfl⟩ := isName_iff.mp h.2
      exact ⟨⟨some scope, name⟩, (Text.cutAtFirst_eq_some_iff.mp hcut).1.symm⟩
    · obtain ⟨name, rfl⟩ := isName_iff.mp h
      exact ⟨⟨none, name⟩, rfl⟩
  · rintro ⟨form, rfl⟩
    rw [isQName, QNameForm.cutAtFirst_chars]
    cases hscope : form.scope with
    | none =>
      rw [QNameForm.chars, hscope]
      exact isName_iff.mpr ⟨form.name, rfl⟩
    | some scope =>
      show (isName scope.chars && isName form.name.chars) = true
      rw [isName_iff.mpr ⟨scope, rfl⟩, isName_iff.mpr ⟨form.name, rfl⟩]
      rfl

/-! ### Selectors -/

theorem isIdentifier_cons {c : Char} {cs : List Char} :
    isIdentifier (c :: cs) = true ↔
      (c.isAlpha = true ∨ c = '_') ∧ ∀ d ∈ cs, d.isAlphanum = true ∨ d = '_' := by
  simp [isIdentifier]

theorem readSelector_eq_ok_iff {inner : List Char} {selector : Selector} :
    readSelector inner = .ok selector ↔ ∃ form : SelectorForm, form.chars = inner ∧
      form.selector = selector := by
  rw [readSelector]
  constructor
  · intro h
    split at h
    · rename_i n hnumeral
      obtain ⟨hne, hdigit, rfl⟩ := Text.numeral?_eq_some_iff.mp hnumeral
      split at h
      · rename_i hrange
        obtain rfl := Except.ok.inj h
        exact ⟨.numeral inner hne hdigit hrange, rfl, rfl⟩
      · cases h
    · split at h
      · rename_i hidentifier
        obtain rfl := Except.ok.inj h
        cases inner with
        | nil => cases hidentifier
        | cons c cs =>
          obtain ⟨hstarts, hcontinues⟩ := isIdentifier_cons.mp hidentifier
          exact ⟨.identifier c cs hstarts hcontinues, rfl, rfl⟩
      · cases h
  · rintro ⟨form, rfl, rfl⟩
    cases form with
    | numeral digits hne hdigit hrange =>
      have hnumeral : Text.numeral? digits = some (Text.numeralValue digits) :=
        Text.numeral?_eq_some_iff.mpr ⟨hne, hdigit, rfl⟩
      simp only [SelectorForm.chars, hnumeral]
      exact if_pos hrange
    | identifier c cs hstarts hcontinues =>
      have hnumeral : Text.numeral? (c :: cs) = none := by
        rw [Option.eq_none_iff_forall_ne_some]
        intro n hn
        exact SelectorForm.not_isDigit_of_starts hstarts
          ((Text.numeral?_eq_some_iff.mp hn).2.1 c List.mem_cons_self)
      simp only [SelectorForm.chars, hnumeral]
      exact if_pos (isIdentifier_cons.mpr ⟨hstarts, hcontinues⟩)

theorem closedBy_eq_some_iff {close : Char} {cs inner : List Char} :
    closedBy close cs = some inner ↔ cs = inner ++ [close] := by
  rw [closedBy]
  constructor
  · intro h
    split at h
    · rename_i hlast
      obtain rfl := Option.some.inj h
      exact (List.dropLast_append_getLast? _ hlast).symm
    · cases h
  · rintro rfl
    simp

/-! ### Steps and parts -/

/-- The last thing that is read of a step is its name. -/
theorem named_eq_ok_iff {name : List Char} {selector : Option Selector} {step : Step} :
    (if isQName name then Except.ok { name := String.ofList name, selector }
      else Except.error (PathFault.elementName (String.ofList name))) = .ok step ↔
        ∃ form : QNameForm, form.chars = name ∧ { name := form.text, selector } = step := by
  by_cases hname : isQName name = true
  · rw [if_pos hname]
    obtain ⟨form, rfl⟩ := isQName_iff.mp hname
    constructor
    · intro h
      exact ⟨form, rfl, Except.ok.inj h⟩
    · rintro ⟨other, hother, rfl⟩
      rw [QNameForm.chars_injective hother]
      rfl
  · rw [if_neg hname]
    constructor
    · intro h
      cases h
    · rintro ⟨form, rfl, -⟩
      exact absurd (isQName_iff.mpr ⟨form, rfl⟩) hname

theorem readStep_eq_ok_iff {part : List Char} {step : Step} :
    readStep part = .ok step ↔ ∃ form : StepForm, form.chars = part ∧ form.step = step := by
  rw [readStep]
  constructor
  · intro h
    split at h
    · obtain ⟨name, rfl, rfl⟩ := named_eq_ok_iff.mp h
      exact ⟨⟨name, none⟩, rfl, rfl⟩
    · rename_i before after hbracket
      split at h
      · cases h
      · rename_i inner hclosed
        obtain ⟨selector, hselector, h⟩ := bind_eq_ok.mp h
        obtain ⟨form, rfl, rfl⟩ := readSelector_eq_ok_iff.mp hselector
        obtain ⟨name, rfl, rfl⟩ := named_eq_ok_iff.mp h
        obtain ⟨rfl, -⟩ := Text.cutAtFirst_eq_some_iff.mp hbracket
        exact ⟨⟨name, some form⟩, by rw [closedBy_eq_some_iff.mp hclosed]; rfl, rfl⟩
  · rintro ⟨form, rfl, rfl⟩
    rw [StepForm.cutAtFirst_chars, StepForm.step]
    cases hform : form.selector with
    | none =>
      rw [StepForm.chars, hform]
      exact named_eq_ok_iff.mpr ⟨form.name, rfl, rfl⟩
    | some selector =>
      have hclosed : closedBy ']' (selector.chars ++ [']']) = some selector.chars :=
        closedBy_eq_some_iff.mpr rfl
      simp only [Option.map_some, hclosed]
      exact bind_eq_ok.mpr ⟨_, readSelector_eq_ok_iff.mpr ⟨selector, rfl, rfl⟩,
        named_eq_ok_iff.mpr ⟨form.name, rfl, rfl⟩⟩

/-- The parts that are read are those of steps and an attribute. -/
theorem exists_partsOf_of_readParts {parts : List (List Char)} {steps : List Step} {attr : Option String}
    (h : readParts parts = .ok (steps, attr)) :
    ∃ forms name, PathForm.partsOf forms name = parts ∧ forms.map StepForm.step = steps ∧
      name.map QNameForm.text = attr := by
  induction parts generalizing steps attr with
  | nil =>
    obtain ⟨rfl, rfl⟩ := Prod.mk.inj (Except.ok.inj h)
    exact ⟨[], none, rfl, rfl, rfl⟩
  | cons part rest ih =>
    rw [readParts.eq_def] at h
    dsimp only at h
    split at h
    · cases h
    · split at h
      · cases h
      · rename_i hrest
        split at h
        · rename_i hname
          obtain ⟨name, rfl⟩ := isQName_iff.mp hname
          obtain ⟨rfl, rfl⟩ := Prod.mk.inj (Except.ok.inj h)
          exact ⟨[], some name, by rw [not_ne_iff.mp hrest]; rfl, rfl, rfl⟩
        · cases h
    · obtain ⟨step, hstep, h⟩ := bind_eq_ok.mp h
      obtain ⟨⟨others, found⟩, hrest, h⟩ := bind_eq_ok.mp h
      obtain ⟨rfl, rfl⟩ := Prod.mk.inj (Except.ok.inj h)
      obtain ⟨form, rfl, rfl⟩ := readStep_eq_ok_iff.mp hstep
      obtain ⟨forms, name, rfl, rfl, rfl⟩ := ih hrest
      exact ⟨form :: forms, name, rfl, rfl, rfl⟩

theorem readParts_partsOf (forms : List StepForm) (name : Option QNameForm) :
    readParts (PathForm.partsOf forms name) = .ok (forms.map StepForm.step, name.map QNameForm.text) := by
  induction forms with
  | nil =>
    cases name with
    | none => rfl
    | some name =>
      show readParts ['@' :: name.chars] = _
      rw [readParts, if_neg (not_not_intro rfl), if_pos (isQName_iff.mpr ⟨name, rfl⟩)]
      rfl
  | cons form forms ih =>
    have hstep : readStep form.chars = .ok form.step := readStep_eq_ok_iff.mpr ⟨form, rfl, rfl⟩
    obtain ⟨c, cs, hchars, hstarts⟩ := form.exists_chars_eq_cons
    show readParts (form.chars :: PathForm.partsOf forms name) = _
    rw [readParts, hstep, ih]
    · rfl
    · rw [hchars]
      exact List.cons_ne_nil c cs
    · intro attr hattr
      rw [hchars] at hattr
      obtain ⟨rfl, -⟩ := List.cons.inj hattr
      exact absurd hstarts (by decide)

/-! ### Paths -/

theorem eq_append_of_splitRoot {cs body : List Char} {isAbsolute : Bool}
    (h : splitRoot cs = (isAbsolute, body)) :
    cs = (if isAbsolute then ['/'] else []) ++ body := by
  rw [splitRoot.eq_def] at h
  split at h
  all_goals
    obtain ⟨rfl, rfl⟩ := Prod.mk.inj h
    rfl

theorem readChars_eq_ok_iff {cs : List Char} {path : Path} :
    readChars cs = .ok path ↔ ∃ form : PathForm, form.chars = cs ∧ form.path = path := by
  rw [readChars]
  constructor
  · intro h
    split at h
    rename_i isAbsolute body hsplit
    split at h
    · cases h
    · obtain ⟨⟨steps, attr⟩, hparts, h⟩ := bind_eq_ok.mp h
      dsimp only at h
      split at h
      · cases h
      · rename_i hroot
        obtain rfl := Except.ok.inj h
        obtain ⟨steps, attr, hpieces, rfl, rfl⟩ := exists_partsOf_of_readParts hparts
        obtain ⟨form, rfl, rfl, rfl⟩ := PathForm.exists_of_parts isAbsolute
          (hpieces ▸ Text.splitAtEach_ne_nil '/' body) fun habsolute hnil =>
            hroot ⟨habsolute, by rw [hnil]; rfl⟩
        refine ⟨form, ?_, form.path_eq⟩
        rw [form.chars_eq, hpieces, Text.joinWith_splitAtEach, eq_append_of_splitRoot hsplit]
  · rintro ⟨form, rfl, rfl⟩
    have hroot : ¬(form.isAbsolute = true ∧ form.steps.map StepForm.step = []) := fun h =>
      PathForm.steps_ne_nil h.1 (List.map_eq_nil_iff.mp h.2)
    rw [PathForm.splitRoot_chars]
    dsimp only
    rw [if_neg form.joinWith_partsOf_starts.1, form.splitAtEach_joinWith_partsOf, readParts_partsOf]
    exact (if_neg hroot).trans (congrArg _ form.path_eq.symm)

theorem readPath_eq_ok_iff {text : String} {path : Path} :
    SchemaError.readPath text = .ok path ↔ ∃ form : PathForm, form.chars = text.toList ∧
      form.path = path := by
  rw [← readChars_eq_ok_iff, SchemaError.readPath, read]
  cases readChars text.toList <;> simp

/-- **Reading is deriving.** The texts that are read as paths are those that the grammar derives;
none is derived in two ways, and it is read as what its derivation describes. Every other text is an
invalid path. -/
theorem readPath_derives (text : String) :
    (∀ path, SchemaError.readPath text = .ok path ↔
      ∃ form : PathForm, form.chars = text.toList ∧ form.path = path) ∧
      (∀ form other : PathForm, form.chars = text.toList → other.chars = text.toList → form = other) ∧
        ((∀ form : PathForm, form.chars ≠ text.toList) →
          ∃ fault, SchemaError.readPath text = .error (.invalidPath text fault)) := by
  refine ⟨fun path => readPath_eq_ok_iff, fun form other hform hother =>
    PathForm.chars_injective (hform.trans hother.symm), fun hnone => ?_⟩
  cases hread : read text with
  | ok path =>
    obtain ⟨form, hform, -⟩ := readChars_eq_ok_iff.mp hread
    exact absurd hform (hnone form)
  | error fault => exact ⟨fault, by rw [SchemaError.readPath, hread]⟩

end Path

end InvoiceXml
