import InvoiceXml.Proofs.Element.Cursor

/-!
# Brackets in paths

A step of a path may have a number in brackets. The number is what stands between the first opening
and the first closing bracket of the step, and it is read with an optional plus; what follows the
closing bracket is not looked at. So a step that has an opening bracket is in one of three forms: it
is crossed (`IsCrossed`), it is not closed, or it is cut in three at its brackets (`IsCut`).

* `readNumber_eq_some_iff`: which texts between brackets are numbers;
* `follow_of_isCrossed`, `follow_of_not_closed` and `follow_of_isCut`: what comes of a step of each
  form;
* **`navigate_of_bracket`**: the outcome of a path one of whose steps has an opening bracket, and
  when brackets are found crossed.
-/

namespace InvoiceXml

namespace Cursor

/-! ### Forms of steps -/

/-- The steps of a path, empty ones left out. -/
def steps (path : String) : List (List Char) := (Text.splitAtEach '/' path.toList).filter (· ≠ [])

/-- Whether a step is a name, an opening bracket, digits, and a closing bracket at its end. -/
def IsIndexed (step : List Char) : Prop :=
  ∃ name digits, step = name ++ '[' :: (digits ++ [']']) ∧ '[' ∉ name ∧ ']' ∉ name ∧ digits ≠ [] ∧
    ∀ c ∈ digits, c.isDigit = true

/-- Whether a closing bracket stands before the first opening one. -/
def IsCrossed (step : List Char) : Prop := ∃ name after, step = name ++ '[' :: after ∧ '[' ∉ name ∧ ']' ∈ name

/-- Whether a step is cut at its first opening and its first closing bracket into these parts. -/
structure IsCut (name inner trailing step : List Char) : Prop where
  chars : step = name ++ '[' :: (inner ++ ']' :: trailing)
  opening : '[' ∉ name
  closing : ']' ∉ name
  inner : ']' ∉ inner

/-- Whether a text is a number: digits, with a plus before them or not, that denote a machine word. -/
def IsNumber (cs : List Char) (number : Nat) : Prop :=
  ∃ sign digits, cs = sign ++ digits ∧ (sign = [] ∨ sign = ['+']) ∧ digits ≠ [] ∧
    (∀ c ∈ digits, c.isDigit = true) ∧ Text.numeralValue digits = number ∧ number < 2 ^ 64

end Cursor

/-- Whether an error says that a path is malformed at a step. -/
def CursorError.IsInvalid (path : String) (step : List Char) (error : CursorError) : Prop :=
  error = .unclosedBracket path (String.ofList step) ∨ error = .invalidIndex path (String.ofList step)

namespace Cursor

theorem readNumber_of_ne {cs : List Char} (h : ∀ rest, cs ≠ '+' :: rest) :
    readNumber cs = (Text.numeral? cs).filter (· < 2 ^ 64) := by
  rw [readNumber]
  · rfl
  · exact fun rest hrest => h rest hrest

theorem filter_numeral?_eq_some_iff {cs : List Char} {number : Nat} :
    (Text.numeral? cs).filter (· < 2 ^ 64) = some number ↔
      cs ≠ [] ∧ (∀ c ∈ cs, c.isDigit = true) ∧ Text.numeralValue cs = number ∧ number < 2 ^ 64 := by
  rw [Option.filter_eq_some_iff, Text.numeral?_eq_some_iff, decide_eq_true_iff, and_assoc, and_assoc]

theorem readNumber_eq_some_iff {cs : List Char} {number : Nat} :
    readNumber cs = some number ↔ IsNumber cs number := by
  by_cases hplus : ∃ digits, cs = '+' :: digits
  · obtain ⟨digits, rfl⟩ := hplus
    refine filter_numeral?_eq_some_iff.trans ⟨fun h => ⟨['+'], digits, rfl, .inr rfl, h⟩, ?_⟩
    rintro ⟨sign, others, heq, hsign, hne, hdigits, h⟩
    rcases hsign with rfl | rfl
    · obtain rfl : '+' :: digits = others := heq
      exact absurd (hdigits '+' List.mem_cons_self) (by decide)
    · obtain rfl : digits = others := List.tail_eq_of_cons_eq heq
      exact ⟨hne, hdigits, h⟩
  · rw [readNumber_of_ne fun rest hrest => hplus ⟨rest, hrest⟩]
    refine filter_numeral?_eq_some_iff.trans ⟨fun h => ⟨[], cs, rfl, .inl rfl, h⟩, ?_⟩
    rintro ⟨sign, others, rfl, hsign, h⟩
    rcases hsign with rfl | rfl
    · exact h
    · exact absurd ⟨others, rfl⟩ hplus

/-- A step with an opening bracket is crossed, or not closed, or cut in one way. -/
theorem isCrossed_or_of_mem {step : List Char} (h : '[' ∈ step) :
    IsCrossed step ∨ ']' ∉ step ∨ ∃ name inner trailing, IsCut name inner trailing step := by
  cases hopen : Text.cutAtFirst '[' step with
  | none => exact absurd h (Text.cutAtFirst_eq_none_iff.mp hopen)
  | some parts =>
    obtain ⟨name, after⟩ := parts
    obtain ⟨rfl, hname⟩ := Text.cutAtFirst_eq_some_iff.mp hopen
    by_cases hcrossed : ']' ∈ name
    · exact .inl ⟨name, after, rfl, hname, hcrossed⟩
    · cases hclose : Text.cutAtFirst ']' after with
      | none =>
        have hafter := Text.cutAtFirst_eq_none_iff.mp hclose
        exact .inr (.inl (by simp [hcrossed, hafter]))
      | some parts =>
        obtain ⟨inner, trailing⟩ := parts
        obtain ⟨rfl, hinner⟩ := Text.cutAtFirst_eq_some_iff.mp hclose
        exact .inr (.inr ⟨name, inner, trailing, rfl, hname, hcrossed, hinner⟩)

/-- A step is cut at its first brackets in one way. -/
theorem IsCut.unique {name inner trailing other within behind step : List Char}
    (h : IsCut name inner trailing step) (hother : IsCut other within behind step) :
    name = other ∧ inner = within ∧ trailing = behind := by
  obtain ⟨hname, hafter⟩ := Text.append_cons_inj h.opening hother.opening (h.chars.symm.trans hother.chars)
  exact ⟨hname, Text.append_cons_inj h.inner hother.inner hafter⟩

theorem IsCut.not_isCrossed {name inner trailing step : List Char} (h : IsCut name inner trailing step) :
    ¬IsCrossed step := by
  rintro ⟨other, after, hstep, hopening, hclosing⟩
  obtain ⟨rfl, -⟩ := Text.append_cons_inj h.opening hopening (h.chars.symm.trans hstep)
  exact h.closing hclosing

variable {path : String} {step : List Char} {cursor middle : Cursor}

/-! ### Following one step -/

theorem follow_of_isCrossed (h : IsCrossed step) :
    follow path step cursor = .error (.crossedBrackets path (String.ofList step)) := by
  obtain ⟨name, after, hstep, hname, hclosing⟩ := h
  simp only [follow, Text.cutAtFirst_eq_some_iff.mpr ⟨hstep, hname⟩, if_pos hclosing]

theorem follow_of_not_closed (hopen : '[' ∈ step) (hclose : ']' ∉ step) :
    follow path step cursor = .error (.unclosedBracket path (String.ofList step)) := by
  cases hcut : Text.cutAtFirst '[' step with
  | none => exact absurd hopen (Text.cutAtFirst_eq_none_iff.mp hcut)
  | some parts =>
    obtain ⟨name, after⟩ := parts
    obtain ⟨hstep, -⟩ := Text.cutAtFirst_eq_some_iff.mp hcut
    obtain ⟨hname, hafter⟩ : ']' ∉ name ∧ ']' ∉ after := by simpa [hstep] using hclose
    simp only [follow, hcut, if_neg hname, Text.cutAtFirst_eq_none_iff.mpr hafter]

theorem follow_of_isCut {name inner trailing : List Char} (h : IsCut name inner trailing step) :
    follow path step cursor = (readNumber inner).elim (.error (.invalidIndex path (String.ofList step)))
      fun number => cursor.instance? (String.ofList name) number := by
  have hopen : Text.cutAtFirst '[' step = some (name, inner ++ ']' :: trailing) :=
    Text.cutAtFirst_eq_some_iff.mpr ⟨h.chars, h.opening⟩
  have hclose : Text.cutAtFirst ']' (inner ++ ']' :: trailing) = some (inner, trailing) :=
    Text.cutAtFirst_eq_some_iff.mpr ⟨rfl, h.inner⟩
  simp only [follow, hopen, if_neg h.closing, hclose]
  cases readNumber inner <;> rfl

theorem instance?_ne_crossed {name text : String} {number : Nat} :
    cursor.instance? name number ≠ .error (.crossedBrackets path text) := by
  intro h
  rw [instance?] at h
  split at h <;> cases h

/-- Brackets are found crossed only in a step where they are. -/
theorem isCrossed_of_follow {other text : String}
    (h : follow path step cursor = .error (.crossedBrackets other text)) :
    other = path ∧ text = String.ofList step ∧ IsCrossed step := by
  by_cases hopen : '[' ∈ step
  · rcases isCrossed_or_of_mem hopen with hcrossed | hclose | ⟨name, inner, trailing, hcut⟩
    · rw [follow_of_isCrossed hcrossed] at h
      obtain ⟨rfl, rfl⟩ := CursorError.crossedBrackets.inj (Except.error.inj h)
      exact ⟨rfl, rfl, hcrossed⟩
    · rw [follow_of_not_closed hopen hclose] at h
      cases h
    · rw [follow_of_isCut hcut] at h
      cases hnumber : readNumber inner with
      | none =>
        rw [hnumber] at h
        cases h
      | some number =>
        rw [hnumber] at h
        exact absurd h instance?_ne_crossed
  · simp only [follow, Text.cutAtFirst_eq_none_iff.mpr hopen] at h
    exact absurd h instance?_ne_crossed

/-! ### Following all steps -/

theorem followAll_filter (pieces : List (List Char)) :
    followAll path (pieces.filter (· ≠ [])) cursor = followAll path pieces cursor := by
  induction pieces generalizing cursor with
  | nil => rfl
  | cons step rest ih =>
    by_cases hstep : step = []
    · rw [List.filter_cons_of_neg (by simpa using hstep), followAll, if_pos hstep, ih]
    · rw [List.filter_cons_of_pos (by simpa using hstep), followAll, followAll, if_neg hstep, if_neg hstep]
      exact congrArg _ (funext fun _ => ih)

theorem navigate_eq_followAll : cursor.navigate path = followAll path (steps path) cursor :=
  (followAll_filter _).symm

/-- Once the steps before it are followed, a step decides. -/
theorem followAll_append_cons {before after : List (List Char)}
    (hbefore : followAll path before cursor = .ok middle) (hstep : step ≠ []) :
    followAll path (before ++ step :: after) cursor =
      (follow path step middle).bind (followAll path after) := by
  induction before generalizing cursor with
  | nil =>
    obtain rfl := Except.ok.inj hbefore
    rw [List.nil_append, followAll, if_neg hstep]
  | cons first before ih =>
    rw [List.cons_append, followAll]
    rw [followAll] at hbefore
    split at hbefore
    · rename_i hfirst
      rw [if_pos hfirst, ih hbefore]
    · rename_i hfirst
      obtain ⟨next, hnext, hbefore⟩ := bind_eq_ok.mp hbefore
      rw [if_neg hfirst, hnext]
      exact ih hbefore

theorem exists_isCrossed_of_followAll {all : List (List Char)} {other text : String}
    (h : followAll path all cursor = .error (.crossedBrackets other text)) :
    other = path ∧ ∃ before step after middle, all = before ++ step :: after ∧ text = String.ofList step ∧
      followAll path before cursor = .ok middle ∧ IsCrossed step := by
  induction all generalizing cursor with
  | nil => cases h
  | cons step rest ih =>
    rw [followAll] at h
    split at h
    · rename_i hempty
      obtain ⟨hpath, before, crossed, after, middle, rfl, htext, hbefore, hcrossed⟩ := ih h
      exact ⟨hpath, step :: before, crossed, after, middle, rfl, htext,
        by rw [followAll, if_pos hempty, hbefore], hcrossed⟩
    · rename_i hne
      cases hstep : follow path step cursor with
      | error error =>
        rw [hstep] at h
        obtain rfl := Except.error.inj h
        obtain ⟨hpath, htext, hcrossed⟩ := isCrossed_of_follow hstep
        exact ⟨hpath, [], step, rest, cursor, rfl, htext, rfl, hcrossed⟩
      | ok next =>
        rw [hstep] at h
        obtain ⟨hpath, before, crossed, after, middle, rfl, htext, hbefore, hcrossed⟩ := ih h
        exact ⟨hpath, step :: before, crossed, after, middle, rfl, htext,
          by rw [followAll, if_neg hne, hstep]; exact hbefore, hcrossed⟩

/-- **Brackets in a path.** Brackets are found crossed only where the steps before a crossed one can
be followed. Where they can, and a step has an opening bracket, a crossed step is found; a step that
has a number between its first brackets leads to the member with this number, whatever follows, and
with a plus before the digits, too; and every other step is invalid. So it is with all that are not
a name and digits in brackets at its end, unless they are crossed, or have a plus, or something
behind the first closing bracket. -/
theorem navigate_of_bracket (path : String) (cursor : Cursor) :
    (∀ other text, cursor.navigate path = .error (.crossedBrackets other text) →
      other = path ∧ ∃ before step after middle, steps path = before ++ step :: after ∧
        text = String.ofList step ∧ followAll path before cursor = .ok middle ∧ IsCrossed step) ∧
    ∀ before step after middle, steps path = before ++ step :: after →
      followAll path before cursor = .ok middle → '[' ∈ step →
        (IsCrossed step → cursor.navigate path = .error (.crossedBrackets path (String.ofList step))) ∧
        (∀ name inner trailing number, IsCut name inner trailing step → IsNumber inner number →
          cursor.navigate path = (middle.instance? (String.ofList name) number).bind (followAll path after)) ∧
        (¬IsCrossed step →
          (∀ name inner trailing number, IsCut name inner trailing step → ¬IsNumber inner number) →
          ∃ error, cursor.navigate path = .error error ∧ error.IsInvalid path step) ∧
        (¬IsIndexed step → ¬IsCrossed step →
          (∀ name inner trailing, IsCut name inner trailing step → '+' ∉ inner ∧ trailing = []) →
          ∃ error, cursor.navigate path = .error error ∧ error.IsInvalid path step) := by
  refine ⟨fun other text h => exists_isCrossed_of_followAll (navigate_eq_followAll ▸ h), ?_⟩
  intro before step after middle hsteps hbefore hopen
  have hnavigate : cursor.navigate path = (follow path step middle).bind (followAll path after) := by
    rw [navigate_eq_followAll, hsteps, followAll_append_cons hbefore (List.ne_nil_of_mem hopen)]
  have hinvalid : ¬IsCrossed step →
      (∀ name inner trailing number, IsCut name inner trailing step → ¬IsNumber inner number) →
        ∃ error, cursor.navigate path = .error error ∧ error.IsInvalid path step := by
    intro hcrossed hnumber
    rcases isCrossed_or_of_mem hopen with h | hclose | ⟨name, inner, trailing, hcut⟩
    · exact absurd h hcrossed
    · exact ⟨_, by rw [hnavigate, follow_of_not_closed hopen hclose]; rfl, .inl rfl⟩
    · have hnone : readNumber inner = none := by
        rw [Option.eq_none_iff_forall_ne_some]
        exact fun number h => hnumber name inner trailing number hcut (readNumber_eq_some_iff.mp h)
      exact ⟨_, by rw [hnavigate, follow_of_isCut hcut, hnone]; rfl, .inr rfl⟩
  refine ⟨fun h => ?_, fun name inner trailing number hcut hnumber => ?_, hinvalid,
    fun hindexed hcrossed hplain => ?_⟩
  · rw [hnavigate, follow_of_isCrossed h]
    rfl
  · rw [hnavigate, follow_of_isCut hcut, readNumber_eq_some_iff.mpr hnumber]
    rfl
  · refine hinvalid hcrossed fun name inner trailing number hcut hnumber => hindexed ?_
    obtain ⟨sign, digits, rfl, hsign, hne, hdigits, -⟩ := hnumber
    obtain ⟨hplus, rfl⟩ := hplain name _ trailing hcut
    rcases hsign with rfl | rfl
    · exact ⟨name, digits, hcut.chars, hcut.opening, hcut.closing, hne, hdigits⟩
    · exact absurd (List.mem_append_left _ List.mem_cons_self) hplus

/-- A document with an item that has an identifier. -/
def itemWithId : Element :=
  { name := "DOC", children := [{ name := "ITEM", children := [{ name := "ID" }] }] }

/-- A letter in brackets, behind a step that leads to an item. -/
theorem navigate_of_bracket_letter :
    let path := "ITEM[0]/ID[x]"
    ∃ middle, steps path = ["ITEM[0]".toList] ++ "ID[x]".toList :: [] ∧
      followAll path ["ITEM[0]".toList] (start itemWithId) = .ok middle ∧ '[' ∈ "ID[x]".toList ∧
        ¬IsIndexed "ID[x]".toList ∧ ¬IsCrossed "ID[x]".toList ∧
          (∀ name inner trailing, IsCut name inner trailing "ID[x]".toList → '+' ∉ inner ∧ trailing = []) ∧
            ∃ error, (start itemWithId).navigate path = .error error ∧
                error.IsInvalid path "ID[x]".toList := by
  intro path
  have hcut : IsCut ['I', 'D'] ['x'] [] "ID[x]".toList := ⟨rfl, by decide, by decide, by decide⟩
  have hparts : ∀ name inner trailing, IsCut name inner trailing "ID[x]".toList → '+' ∉ inner ∧
      trailing = [] := by
    intro name inner trailing h
    obtain ⟨-, rfl, rfl⟩ := hcut.unique h
    exact ⟨by decide, rfl⟩
  have hindexed : ¬IsIndexed "ID[x]".toList := by
    rintro ⟨name, digits, hstep, hopening, hclosing, -, hdigits⟩
    have hinner : ']' ∉ digits := fun h => absurd (hdigits _ h) (by decide)
    obtain ⟨-, rfl, -⟩ := hcut.unique ⟨hstep, hopening, hclosing, hinner⟩
    exact absurd (hdigits 'x' List.mem_cons_self) (by decide)
  have hsteps : steps path = ["ITEM[0]".toList] ++ "ID[x]".toList :: [] := by decide
  have hbefore : followAll path ["ITEM[0]".toList] (start itemWithId) =
      .ok ⟨{ name := "ITEM", children := [{ name := "ID" }] }, ["DOC", "ITEM[0]"], [0]⟩ := rfl
  obtain ⟨-, -, -, hinvalid⟩ :=
    (navigate_of_bracket path (start itemWithId)).2 _ _ _ _ hsteps hbefore (by decide)
  exact ⟨_, hsteps, hbefore, by decide, hindexed, hcut.not_isCrossed, hparts,
    hinvalid hindexed hcut.not_isCrossed hparts⟩

/-- A closing bracket may stand first, which is no invalid path; and text behind the closing bracket
does no harm. -/
theorem navigate_crossed_and_trailing :
    (¬∀ (path : String) (cursor : Cursor) (other text : String),
      cursor.navigate path ≠ .error (.crossedBrackets other text)) ∧
    ¬∀ (path : String) (cursor : Cursor) (before : List (List Char)) (step : List Char)
      (after : List (List Char))
      (middle : Cursor), steps path = before ++ step :: after →
        followAll path before cursor = .ok middle → '[' ∈ step →
        ¬IsIndexed step → ∃ error, cursor.navigate path = .error error ∧ error.IsInvalid path step := by
  constructor
  · intro h
    exact h "ITEM]1[0" (start itemWithId) "ITEM]1[0" "ITEM]1[0" rfl
  · intro h
    have hsteps : steps "ITEM[0]x" = [] ++ "ITEM[0]x".toList :: [] := by decide
    have hindexed : ¬IsIndexed "ITEM[0]x".toList := by
      rintro ⟨name, digits, hstep, -⟩
      have hlast := congrArg List.getLast? hstep
      rw [List.getLast?_append_cons, List.getLast?_cons, List.getLast?_concat] at hlast
      exact absurd hlast (by decide)
    obtain ⟨error, herror, -⟩ := h "ITEM[0]x" (start itemWithId) [] _ [] _ hsteps rfl (by decide) hindexed
    have hfound : ((start itemWithId).navigate "ITEM[0]x").toOption.isSome = true := rfl
    rw [herror] at hfound
    cases hfound

end Cursor

end InvoiceXml
