import InvoiceXml.Path.Reader
import InvoiceXml.Proofs.Text.Split
import Mathlib.Data.List.Basic

/-!
# The grammar of paths

The derivations of the grammar of paths, as data:

* a path is absolute, with one step or more, each after a slash; or relative, with slashes between
  the steps; both may end with a slash and an attribute, and an attribute alone is relative, too;
* a step is a qualified name, and possibly a selector in brackets;
* a selector is a numeral below 2^64 or an identifier, both of ASCII characters;
* a qualified name is a name, and possibly another one and a colon before it;
* an attribute is a qualified name after an at sign.

`chars` is the text that a derivation derives, and `path` is what the text means. The characters of
a name are none of the signs that stand between names (`QNameForm.notMem_chars`), so

* **`PathForm.chars_injective`**: no text is derived in two ways.
-/

namespace InvoiceXml.Path

/-! ### Derivations -/

/-- A name: a letter or an underscore, and letters, numbers, underscores, hyphens and points after it. -/
@[ext]
structure NameForm where
  first : Char
  rest : List Char
  starts : Text.isAlphabetic first = true ∨ first = '_'
  continues : ∀ c ∈ rest, Text.isAlphanumeric c = true ∨ c = '_' ∨ c = '-' ∨ c = '.'

/-- A qualified name: a name, and possibly another one before it. -/
@[ext]
structure QNameForm where
  scope : Option NameForm
  name : NameForm

/-- A selector: a numeral or an identifier. -/
inductive SelectorForm where
  | numeral (digits : List Char) (ne_nil : digits ≠ []) (isDigit : ∀ c ∈ digits, c.isDigit = true)
      (inRange : Text.numeralValue digits < Nat.pow 2 64)
  | identifier (first : Char) (rest : List Char) (starts : first.isAlpha = true ∨ first = '_')
      (continues : ∀ c ∈ rest, c.isAlphanum = true ∨ c = '_')

/-- A step: a qualified name, and possibly a selector. -/
@[ext]
structure StepForm where
  name : QNameForm
  selector : Option SelectorForm

/-- A path: steps, possibly with an attribute behind, or an attribute alone. -/
inductive PathForm where
  | absolute (first : StepForm) (rest : List StepForm) (attr : Option QNameForm)
  | relative (first : StepForm) (rest : List StepForm) (attr : Option QNameForm)
  | lone (name : QNameForm)

/-! ### What is derived, and what it means -/

namespace NameForm

def chars (form : NameForm) : List Char := form.first :: form.rest

end NameForm

namespace QNameForm

def chars (form : QNameForm) : List Char :=
  match form.scope with
  | none => form.name.chars
  | some scope => scope.chars ++ ':' :: form.name.chars

/-- The name as it is written. -/
def text (form : QNameForm) : String := String.ofList form.chars

end QNameForm

namespace SelectorForm

def chars : SelectorForm → List Char
  | numeral digits _ _ _ => digits
  | identifier first rest _ _ => first :: rest

/-- The instance or the group that is selected. -/
def selector : SelectorForm → Selector
  | numeral digits _ _ _ => .index (Text.numeralValue digits)
  | identifier first rest _ _ => .group (String.ofList (first :: rest))

end SelectorForm

namespace StepForm

def chars (form : StepForm) : List Char :=
  match form.selector with
  | none => form.name.chars
  | some selector => form.name.chars ++ '[' :: (selector.chars ++ [']'])

/-- The step that is taken. -/
def step (form : StepForm) : Step :=
  { name := form.name.text, selector := form.selector.map SelectorForm.selector }

end StepForm

namespace PathForm

/-- Steps, each after a slash. -/
def stepsChars (forms : List StepForm) : List Char := forms.flatMap fun form => '/' :: form.chars

/-- An attribute after a slash, if there is one. -/
def attrChars : Option QNameForm → List Char
  | none => []
  | some name => '/' :: '@' :: name.chars

def chars : PathForm → List Char
  | absolute first rest attr => stepsChars (first :: rest) ++ attrChars attr
  | relative first rest attr => first.chars ++ stepsChars rest ++ attrChars attr
  | lone name => '@' :: name.chars

/-- The way that is described. -/
def path : PathForm → Path
  | absolute first rest attr =>
    { absolute := true, steps := (first :: rest).map StepForm.step, attr := attr.map QNameForm.text }
  | relative first rest attr =>
    { absolute := false, steps := (first :: rest).map StepForm.step, attr := attr.map QNameForm.text }
  | lone name => { absolute := false, steps := [], attr := some name.text }

end PathForm

/-! ### The characters of names -/

theorem startsName_iff {c : Char} : startsName c = true ↔ Text.isAlphabetic c = true ∨ c = '_' := by
  simp [startsName]

theorem continuesName_iff {c : Char} :
    continuesName c = true ↔ Text.isAlphanumeric c = true ∨ c = '_' ∨ c = '-' ∨ c = '.' := by
  simp [continuesName, or_assoc]

/-- What may start a name may stand further on in it. -/
theorem continuesName_of_startsName {c : Char} (h : startsName c = true) : continuesName c = true := by
  rw [startsName_iff] at h
  rw [continuesName_iff, Text.isAlphanumeric, Bool.or_eq_true]
  exact h.elim (fun h => .inl (.inl h)) fun h => .inr (.inl h)

namespace NameForm

theorem startsName_first (form : NameForm) : startsName form.first = true := startsName_iff.mpr form.starts

theorem continuesName_of_mem {form : NameForm} {c : Char} (h : c ∈ form.chars) : continuesName c = true := by
  rcases List.mem_cons.mp h with rfl | h
  · exact continuesName_of_startsName form.startsName_first
  · exact continuesName_iff.mpr (form.continues c h)

theorem colon_notMem (form : NameForm) : ':' ∉ form.chars :=
  fun h => absurd (continuesName_of_mem h) (by decide)

theorem chars_injective {form other : NameForm} (h : form.chars = other.chars) : form = other :=
  NameForm.ext (List.cons.inj h).1 (List.cons.inj h).2

end NameForm

namespace QNameForm

/-- A sign other than the colon that cannot stand in a name cannot stand in a qualified name. -/
theorem notMem_chars {c : Char} (hname : continuesName c = false) (hcolon : c ≠ ':') (form : QNameForm) :
    c ∉ form.chars := by
  have hnot : ∀ name : NameForm, c ∉ name.chars := fun name h => by
    rw [NameForm.continuesName_of_mem h] at hname
    cases hname
  rw [chars]
  cases form.scope with
  | none => exact hnot form.name
  | some scope => simp [hnot, hcolon]

theorem exists_chars_eq_cons (form : QNameForm) : ∃ c cs, form.chars = c :: cs ∧ startsName c = true := by
  rw [chars]
  cases form.scope with
  | none => exact ⟨_, _, rfl, form.name.startsName_first⟩
  | some scope => exact ⟨_, _, rfl, scope.startsName_first⟩

/-- A qualified name is cut at its colon, if it has one. -/
theorem cutAtFirst_chars (form : QNameForm) :
    Text.cutAtFirst ':' form.chars = form.scope.map fun scope => (scope.chars, form.name.chars) := by
  rw [chars]
  cases form.scope with
  | none => exact Text.cutAtFirst_eq_none_iff.mpr form.name.colon_notMem
  | some scope => exact Text.cutAtFirst_eq_some_iff.mpr ⟨rfl, scope.colon_notMem⟩

theorem chars_injective {form other : QNameForm} (h : form.chars = other.chars) : form = other := by
  have hcut := congrArg (Text.cutAtFirst ':') h
  rw [cutAtFirst_chars, cutAtFirst_chars] at hcut
  cases hscope : form.scope with
  | none =>
    have hother : other.scope = none := by simpa [hscope] using hcut.symm
    rw [chars, chars, hscope, hother] at h
    exact QNameForm.ext (hscope.trans hother.symm) (NameForm.chars_injective h)
  | some scope =>
    rw [hscope, Option.map_some] at hcut
    obtain ⟨otherScope, hother, hparts⟩ := Option.map_eq_some_iff.mp hcut.symm
    obtain ⟨hsame, hname⟩ := Prod.mk.inj hparts
    exact QNameForm.ext (by rw [hscope, hother, NameForm.chars_injective hsame])
      (NameForm.chars_injective hname.symm)

end QNameForm

/-! ### Selectors and steps -/

namespace SelectorForm

theorem isAlphanum_or_of_mem {form : SelectorForm} {c : Char} (h : c ∈ form.chars) :
    c.isAlphanum = true ∨ c = '_' := by
  cases form with
  | numeral digits _ hdigit _ =>
    rw [Char.isAlphanum, hdigit c h, Bool.or_true]
    exact .inl rfl
  | identifier first rest hstarts hcontinues =>
    rcases List.mem_cons.mp h with rfl | h
    · exact hstarts.imp_left fun h => by rw [Char.isAlphanum, h, Bool.true_or]
    · exact hcontinues c h

/-- What starts an identifier is no digit. -/
theorem not_isDigit_of_starts {c : Char} (h : c.isAlpha = true ∨ c = '_') : ¬c.isDigit = true := by
  intro hdigit
  rcases h with halpha | rfl
  · delta Char.isDigit at hdigit
    delta Char.isAlpha Char.isUpper Char.isLower at halpha
    simp only [Bool.or_eq_true, Bool.and_eq_true, decide_eq_true_eq, UInt32.le_iff_toNat_le, ge_iff_le]
      at hdigit halpha
    change 48 ≤ c.toNat ∧ c.toNat ≤ 57 at hdigit
    change 65 ≤ c.toNat ∧ c.toNat ≤ 90 ∨ 97 ≤ c.toNat ∧ c.toNat ≤ 122 at halpha
    omega
  · exact absurd hdigit (by decide)

theorem chars_injective {form other : SelectorForm} (h : form.chars = other.chars) : form = other := by
  cases form with
  | numeral digits _ hdigit _ =>
    cases other with
    | numeral others _ _ _ =>
      obtain rfl : digits = others := h
      rfl
    | identifier first rest hstarts _ =>
      obtain rfl : digits = first :: rest := h
      exact absurd (hdigit first List.mem_cons_self) (not_isDigit_of_starts hstarts)
  | identifier first rest hstarts _ =>
    cases other with
    | numeral others _ hdigit _ =>
      obtain rfl : first :: rest = others := h
      exact absurd (hdigit first List.mem_cons_self) (not_isDigit_of_starts hstarts)
    | identifier otherFirst others _ _ =>
      obtain ⟨rfl, rfl⟩ := List.cons.inj (show first :: rest = otherFirst :: others from h)
      rfl

end SelectorForm

namespace StepForm

theorem slash_notMem (form : StepForm) : '/' ∉ form.chars := by
  have hname := form.name.notMem_chars (c := '/') (by decide) (by decide)
  rw [chars]
  cases form.selector with
  | none => exact hname
  | some selector =>
    have hselector : '/' ∉ selector.chars := fun h => absurd (SelectorForm.isAlphanum_or_of_mem h) (by decide)
    simp [hname, hselector]

/-- A step starts like a name, so it is neither empty nor an attribute. -/
theorem exists_chars_eq_cons (form : StepForm) : ∃ c cs, form.chars = c :: cs ∧ startsName c = true := by
  obtain ⟨c, cs, hname, hstarts⟩ := form.name.exists_chars_eq_cons
  rw [chars, hname]
  cases form.selector with
  | none => exact ⟨c, cs, rfl, hstarts⟩
  | some selector => exact ⟨c, _, rfl, hstarts⟩

/-- A step is cut at its opening bracket, if it has one. -/
theorem cutAtFirst_chars (form : StepForm) :
    Text.cutAtFirst '[' form.chars = form.selector.map fun selector =>
      (form.name.chars, selector.chars ++ [']']) := by
  have hbracket : '[' ∉ form.name.chars := form.name.notMem_chars (by decide) (by decide)
  rw [chars]
  cases form.selector with
  | none => exact Text.cutAtFirst_eq_none_iff.mpr hbracket
  | some selector => exact Text.cutAtFirst_eq_some_iff.mpr ⟨rfl, hbracket⟩

theorem chars_injective {form other : StepForm} (h : form.chars = other.chars) : form = other := by
  have hcut := congrArg (Text.cutAtFirst '[') h
  rw [cutAtFirst_chars, cutAtFirst_chars] at hcut
  cases hselector : form.selector with
  | none =>
    have hother : other.selector = none := by simpa [hselector] using hcut.symm
    rw [chars, chars, hselector, hother] at h
    exact StepForm.ext (QNameForm.chars_injective h) (hselector.trans hother.symm)
  | some selector =>
    rw [hselector, Option.map_some] at hcut
    obtain ⟨otherSelector, hother, hparts⟩ := Option.map_eq_some_iff.mp hcut.symm
    obtain ⟨hname, hsame⟩ := Prod.mk.inj hparts
    refine StepForm.ext (QNameForm.chars_injective hname.symm) ?_
    rw [hselector, hother, SelectorForm.chars_injective (List.append_cancel_right hsame)]

end StepForm

/-! ### Paths -/

namespace PathForm

def isAbsolute : PathForm → Bool
  | absolute _ _ _ => true
  | relative _ _ _ | lone _ => false

def steps : PathForm → List StepForm
  | absolute first rest _ | relative first rest _ => first :: rest
  | lone _ => []

def attr : PathForm → Option QNameForm
  | absolute _ _ attr | relative _ _ attr => attr
  | lone name => some name

/-- The texts between the slashes, of steps and an attribute. -/
def partsOf (steps : List StepForm) (attr : Option QNameForm) : List (List Char) :=
  steps.map StepForm.chars ++ (attr.map fun name => '@' :: name.chars).toList

theorem path_eq (form : PathForm) :
    form.path = { absolute := form.isAbsolute, steps := form.steps.map StepForm.step,
                  attr := form.attr.map QNameForm.text } := by
  cases form <;> rfl

theorem joinWith_partsOf (first : StepForm) (rest : List StepForm) (attr : Option QNameForm) :
    Text.joinWith ['/'] (partsOf (first :: rest) attr) = first.chars ++ stepsChars rest ++
      attrChars attr := by
  rw [partsOf, List.map_cons, List.cons_append, Text.joinWith_cons, List.flatMap_append, List.flatMap_map,
    List.append_assoc]
  cases attr with
  | none => rfl
  | some name => simp [stepsChars, attrChars]

/-- A derived text is its parts with slashes between them, after a slash if it is absolute. -/
theorem chars_eq (form : PathForm) :
    form.chars = (if form.isAbsolute then ['/'] else []) ++
      Text.joinWith ['/'] (partsOf form.steps form.attr) := by
  cases form with
  | absolute first rest attr =>
    have hparts := joinWith_partsOf first rest attr
    simp only [chars, steps, PathForm.attr, isAbsolute, hparts]
    simp [stepsChars]
  | relative first rest attr =>
    have hparts := joinWith_partsOf first rest attr
    simp only [chars, steps, PathForm.attr, isAbsolute, hparts]
    rfl
  | lone name => rfl

theorem partsOf_ne_nil (form : PathForm) : partsOf form.steps form.attr ≠ [] := by
  cases form <;> simp [partsOf, steps, attr]

theorem slash_notMem_partsOf {steps : List StepForm} {attr : Option QNameForm} {part : List Char}
    (h : part ∈ partsOf steps attr) : '/' ∉ part := by
  rcases List.mem_append.mp h with h | h
  · obtain ⟨form, -, rfl⟩ := List.mem_map.mp h
    exact form.slash_notMem
  · obtain ⟨name, -, rfl⟩ := Option.map_eq_some_iff.mp (Option.mem_toList.mp h)
    have hname := name.notMem_chars (c := '/') (by decide) (by decide)
    simpa using hname

/-- The parts are what is between the slashes. -/
theorem splitAtEach_joinWith_partsOf (form : PathForm) :
    Text.splitAtEach '/' (Text.joinWith ['/'] (partsOf form.steps form.attr)) =
      partsOf form.steps form.attr :=
  Text.splitAtEach_joinWith form.partsOf_ne_nil fun _ => slash_notMem_partsOf

/-- A step is no attribute. -/
theorem chars_ne_attribute (step : StepForm) (name : QNameForm) : step.chars ≠ '@' :: name.chars := by
  obtain ⟨c, cs, hchars, hstarts⟩ := step.exists_chars_eq_cons
  rw [hchars]
  intro h
  obtain ⟨rfl, -⟩ := List.cons.inj h
  exact absurd hstarts (by decide)

theorem partsOf_injective {steps others : List StepForm} {attr other : Option QNameForm}
    (h : partsOf steps attr = partsOf others other) : steps = others ∧ attr = other := by
  induction steps generalizing others with
  | nil =>
    cases others with
    | nil =>
      cases attr with
      | none =>
        cases other with
        | none => exact ⟨rfl, rfl⟩
        | some name => cases h
      | some name =>
        cases other with
        | none => cases h
        | some otherName =>
          have hname := (List.cons.inj (List.cons.inj h).1).2
          exact ⟨rfl, congrArg some (QNameForm.chars_injective hname)⟩
    | cons step rest =>
      cases attr with
      | none => cases h
      | some name => exact absurd (List.cons.inj h).1.symm (chars_ne_attribute step name)
  | cons step rest ih =>
    cases others with
    | nil =>
      cases other with
      | none => cases h
      | some name => exact absurd (List.cons.inj h).1 (chars_ne_attribute step name)
    | cons otherStep others =>
      obtain ⟨hstep, hrest⟩ := List.cons.inj h
      obtain ⟨rfl, hattr⟩ := ih hrest
      exact ⟨by rw [StepForm.chars_injective hstep], hattr⟩

theorem partsOf_head_ne_nil {form : PathForm} {part : List Char} {parts : List (List Char)}
    (h : partsOf form.steps form.attr = part :: parts) : part ≠ [] := by
  rintro rfl
  have hmem : [] ∈ partsOf form.steps form.attr := h ▸ List.mem_cons_self
  rcases List.mem_append.mp hmem with hstep | hattr
  · obtain ⟨step, -, hnil⟩ := List.mem_map.mp hstep
    obtain ⟨c, cs, hchars, -⟩ := step.exists_chars_eq_cons
    rw [hchars] at hnil
    cases hnil
  · obtain ⟨name, -, hnil⟩ := Option.map_eq_some_iff.mp (Option.mem_toList.mp hattr)
    cases hnil

/-- The first part is there and does not start with a slash. -/
theorem joinWith_partsOf_starts (form : PathForm) :
    Text.joinWith ['/'] (partsOf form.steps form.attr) ≠ [] ∧
      (Text.joinWith ['/'] (partsOf form.steps form.attr)).head? ≠ some '/' := by
  obtain ⟨part, parts, hparts⟩ := List.exists_cons_of_ne_nil form.partsOf_ne_nil
  have hpart := partsOf_head_ne_nil hparts
  rw [hparts, Text.joinWith_cons, List.head?_append_of_ne_nil _ hpart]
  refine ⟨List.append_ne_nil_of_left_ne_nil hpart _, fun h => ?_⟩
  exact slash_notMem_partsOf (hparts ▸ List.mem_cons_self) (List.mem_of_head? h)

/-- A leading slash is what an absolute path has before its parts. -/
theorem splitRoot_chars (form : PathForm) :
    splitRoot form.chars = (form.isAbsolute, Text.joinWith ['/'] (partsOf form.steps form.attr)) := by
  rw [chars_eq]
  have hhead := form.joinWith_partsOf_starts.2
  cases form.isAbsolute with
  | true => rfl
  | false =>
    generalize Text.joinWith ['/'] (partsOf form.steps form.attr) = body at hhead
    show splitRoot body = _
    rw [splitRoot.eq_def]
    split
    · exact absurd rfl hhead
    · rfl

/-- Steps and an attribute make a path, if there are any, and an absolute one if there are steps. -/
theorem exists_of_parts (isAbsolute : Bool) {steps : List StepForm} {attr : Option QNameForm}
    (hparts : partsOf steps attr ≠ []) (hroot : isAbsolute = true → steps ≠ []) :
    ∃ form : PathForm, form.isAbsolute = isAbsolute ∧ form.steps = steps ∧ form.attr = attr := by
  cases steps with
  | nil =>
    cases isAbsolute with
    | true => exact absurd rfl (hroot rfl)
    | false =>
      cases attr with
      | none => exact absurd rfl hparts
      | some name => exact ⟨lone name, rfl, rfl, rfl⟩
  | cons first rest =>
    cases isAbsolute with
    | true => exact ⟨absolute first rest attr, rfl, rfl, rfl⟩
    | false => exact ⟨relative first rest attr, rfl, rfl, rfl⟩

theorem steps_ne_nil {form : PathForm} (h : form.isAbsolute = true) : form.steps ≠ [] := by
  cases form with
  | absolute first rest attr => exact List.cons_ne_nil first rest
  | relative first rest attr => exact List.cons_ne_nil first rest
  | lone name => cases h

theorem ext_parts {form other : PathForm} (habsolute : form.isAbsolute = other.isAbsolute)
    (hsteps : form.steps = other.steps) (hattr : form.attr = other.attr) : form = other := by
  cases form <;> cases other <;> simp_all [isAbsolute, steps, attr]

/-- **The grammar is unambiguous.** No text is derived in two ways. -/
theorem chars_injective {form other : PathForm} (h : form.chars = other.chars) : form = other := by
  have hroot := congrArg splitRoot h
  rw [splitRoot_chars, splitRoot_chars] at hroot
  obtain ⟨habsolute, hbody⟩ := Prod.mk.inj hroot
  have hparts := congrArg (Text.splitAtEach '/') hbody
  rw [splitAtEach_joinWith_partsOf, splitAtEach_joinWith_partsOf] at hparts
  obtain ⟨hsteps, hattr⟩ := partsOf_injective hparts
  exact ext_parts habsolute hsteps hattr

end PathForm

end InvoiceXml.Path
