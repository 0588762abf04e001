import InvoiceXml.Proofs.Text.Numeral
import InvoiceXml.Proofs.Validator
import Mathlib.Data.List.TakeWhile

/-!
# Reading dates

The texts of dates are made of three numbers (`DateForm`). One lemma for each step of the reader
says what texts it takes (`readDigits_eq_some_iff`, `readNumber_eq_some_iff`,
`readYear_eq_some_iff`, `readNumbers_eq_some_iff`), and no text is made both with and without
hyphens (`DateForm.between_eq_of_chars_eq`), so

* **`read?_eq_some_iff`**: a text is read as a date if and only if it is made of the three numbers
  of the date.
-/

namespace InvoiceXml

namespace Text

/-- The blanks before something else are cut away. -/
theorem trimStart_append {blanks rest : List Char} (hblanks : ∀ c ∈ blanks, isBlank c = true)
    (hrest : ∀ c ∈ rest.head?, isBlank c = false) : trimStart (blanks ++ rest) = rest := by
  rw [trimStart, List.dropWhile_append_of_pos hblanks]
  cases rest with
  | nil => rfl
  | cons c rest => exact List.dropWhile_cons_of_neg (by simp [hrest c rfl])

/-- What is cut away are blanks. -/
theorem exists_blanks_trimStart (cs : List Char) :
    ∃ blanks, cs = blanks ++ trimStart cs ∧ ∀ c ∈ blanks, isBlank c = true :=
  ⟨cs.takeWhile isBlank, List.takeWhile_append_dropWhile.symm, fun _ hc => List.mem_takeWhile_imp hc⟩

theorem isBlank_of_isDigit {c : Char} (h : c.isDigit = true) : isBlank c = false :=
  isBlank_of_isDecimalDigit (isDecimalDigit_of_isDigit h)

end Text

namespace Date

open Text (isBlank numeralValue)

variable {cs rest between : List Char} {most : Option Nat} {n : Nat} {date : Date}

/-! ### Numbers -/

/-- Whether digits are what is read of a text, with the rest behind them. -/
structure IsTaken (most : Option Nat) (digits rest : List Char) : Prop where
  ne_nil : digits ≠ []
  isDigit : ∀ c ∈ digits, c.isDigit = true
  length_le : ∀ count ∈ most, digits.length ≤ count
  ends : (∀ c ∈ rest.head?, c.isDigit = false) ∨ most = some digits.length

/-- The digits that are read from the front of a text. -/
def taken (most : Option Nat) (cs : List Char) : List Char :=
  match most with
  | none => cs.takeWhile Char.isDigit
  | some count => (cs.takeWhile Char.isDigit).take count

theorem readDigits_eq (most : Option Nat) (cs : List Char) :
    readDigits most cs =
      (Text.numeral? (taken most cs)).map fun value => (value, cs.drop (taken most cs).length) := by
  cases most <;> rfl

theorem taken_append_drop (most : Option Nat) (cs : List Char) :
    taken most cs ++ cs.drop (taken most cs).length = cs := by
  apply List.prefix_iff_eq_append.mp
  cases most with
  | none => exact List.takeWhile_prefix _
  | some count => exact (List.take_prefix _ _).trans (List.takeWhile_prefix _)

/-- Behind all digits there is no other. -/
theorem isDigit_head?_drop_takeWhile (cs : List Char) :
    ∀ c ∈ (cs.drop (cs.takeWhile Char.isDigit).length).head?, c.isDigit = false := by
  have hdrop : cs.drop (cs.takeWhile Char.isDigit).length = cs.dropWhile Char.isDigit :=
    List.append_cancel_left ((taken_append_drop none cs).trans List.takeWhile_append_dropWhile.symm)
  intro c hc
  have hstop := List.head?_dropWhile_not Char.isDigit cs
  rw [hdrop, Option.mem_def] at hc
  rwa [hc] at hstop

/-- What is read of a text is as much as there is, and as there may be. -/
theorem isTaken_taken (h : taken most cs ≠ []) :
    IsTaken most (taken most cs) (cs.drop (taken most cs).length) := by
  cases most with
  | none =>
    exact ⟨h, fun c hc => List.mem_takeWhile_imp hc, by simp, .inl (isDigit_head?_drop_takeWhile cs)⟩
  | some count =>
    refine ⟨h, fun c hc => List.mem_takeWhile_imp (List.mem_of_mem_take hc), ?_, ?_⟩
    · intro most hmost
      obtain rfl := Option.some.inj hmost
      exact List.length_take_le _ _
    · by_cases hall : (cs.takeWhile Char.isDigit).length ≤ count
      · have htaken : taken (some count) cs = cs.takeWhile Char.isDigit := List.take_of_length_le hall
        exact .inl (htaken ▸ isDigit_head?_drop_takeWhile cs)
      · refine .inr (congrArg some ?_)
        rw [taken, List.length_take]
        omega

theorem taken_append {digits : List Char} (h : IsTaken most digits rest) :
    taken most (digits ++ rest) = digits := by
  have hall : (digits ++ rest).takeWhile Char.isDigit = digits ++ rest.takeWhile Char.isDigit :=
    List.takeWhile_append_of_pos h.isDigit
  rcases h.ends with hends | rfl
  · have hrest : rest.takeWhile Char.isDigit = [] := by
      cases rest with
      | nil => rfl
      | cons c rest => exact List.takeWhile_cons_of_neg (by simp [hends c rfl])
    rw [hrest, List.append_nil] at hall
    cases most with
    | none => exact hall
    | some count =>
      rw [taken, hall]
      exact List.take_of_length_le (h.length_le count rfl)
  · rw [taken, hall]
    exact List.take_left

/-- **Reading digits** takes as many as there are, and as there may be. -/
theorem readDigits_eq_some_iff :
    readDigits most cs = some (n, rest) ↔
      ∃ digits, cs = digits ++ rest ∧ IsTaken most digits rest ∧ numeralValue digits = n := by
  rw [readDigits_eq]
  constructor
  · intro h
    obtain ⟨value, hnumeral, hpair⟩ := Option.map_eq_some_iff.mp h
    obtain ⟨rfl, rfl⟩ := Prod.mk.inj hpair
    obtain ⟨hne, -, rfl⟩ := Text.numeral?_eq_some_iff.mp hnumeral
    exact ⟨taken most cs, (taken_append_drop most cs).symm, isTaken_taken hne, rfl⟩
  · rintro ⟨digits, rfl, htaken, rfl⟩
    have hnumeral : Text.numeral? digits = some (numeralValue digits) :=
      Text.numeral?_eq_some_iff.mpr ⟨htaken.ne_nil, htaken.isDigit, rfl⟩
    rw [taken_append htaken, hnumeral, Option.map_some, List.drop_left]

/-- A number with the blanks before it. -/
structure NumberForm where
  blanks : List Char
  digits : List Char
  isBlank_blanks : ∀ c ∈ blanks, isBlank c = true
  digits_ne_nil : digits ≠ []
  isDigit_digits : ∀ c ∈ digits, c.isDigit = true

namespace NumberForm

def chars (form : NumberForm) : List Char := form.blanks ++ form.digits

def value (form : NumberForm) : Nat := numeralValue form.digits

theorem isDigit_head? (form : NumberForm) (rest : List Char) :
    ∀ c ∈ (form.digits ++ rest).head?, c.isDigit = true := by
  intro c hc
  rw [List.head?_append_of_ne_nil _ form.digits_ne_nil] at hc
  exact form.isDigit_digits c (List.mem_of_mem_head? hc)

theorem isBlank_head? (form : NumberForm) (rest : List Char) :
    ∀ c ∈ (form.digits ++ rest).head?, isBlank c = false :=
  fun c hc => Text.isBlank_of_isDigit (form.isDigit_head? rest c hc)

end NumberForm

/-- **Reading a number** takes the blanks before it. -/
theorem readNumber_eq_some_iff {most : Nat} :
    readNumber most cs = some (n, rest) ↔
      ∃ form : NumberForm, cs = form.chars ++ rest ∧ IsTaken (some most) form.digits rest ∧
        form.value = n := by
  rw [readNumber, readDigits_eq_some_iff]
  constructor
  · rintro ⟨digits, hdigits, htaken, rfl⟩
    obtain ⟨blanks, hcs, hblanks⟩ := Text.exists_blanks_trimStart cs
    refine ⟨⟨blanks, digits, hblanks, htaken.ne_nil, htaken.isDigit⟩, ?_, htaken, rfl⟩
    rw [hcs, hdigits, NumberForm.chars, List.append_assoc]
  · rintro ⟨form, rfl, htaken, rfl⟩
    refine ⟨form.digits, ?_, htaken, rfl⟩
    rw [NumberForm.chars, List.append_assoc,
      Text.trimStart_append form.isBlank_blanks (form.isBlank_head? rest)]

/-! ### Years -/

/-- A minus, a plus, or nothing. -/
def IsSign (sign : List Char) : Prop := sign = [] ∨ sign = ['-'] ∨ sign = ['+']

/-- Whether a text has its first sign cut off. -/
def IsUnsigned (sign rest : List Char) : Prop := sign = [] → ∀ c ∈ rest.head?, c ≠ '-' ∧ c ≠ '+'

/-- How many digits a year may have. -/
def yearMost (sign : List Char) : Option Nat := if sign = [] then some 4 else none

/-- The number with a sign. -/
def signed (sign : List Char) (n : Nat) : Int := if sign = ['-'] then -n else n

theorem exists_sign (cs : List Char) :
    ∃ sign rest, cs = sign ++ rest ∧ IsSign sign ∧ IsUnsigned sign rest := by
  by_cases hminus : ∃ rest, cs = '-' :: rest
  · obtain ⟨rest, rfl⟩ := hminus
    exact ⟨['-'], rest, rfl, .inr (.inl rfl), fun h => by cases h⟩
  · by_cases hplus : ∃ rest, cs = '+' :: rest
    · obtain ⟨rest, rfl⟩ := hplus
      exact ⟨['+'], rest, rfl, .inr (.inr rfl), fun h => by cases h⟩
    · refine ⟨[], cs, rfl, .inl rfl, fun _ c hc => ?_⟩
      obtain ⟨rest, rfl⟩ := List.head?_eq_some_iff.mp hc
      exact ⟨fun h => hminus ⟨rest, by rw [h]⟩, fun h => hplus ⟨rest, by rw [h]⟩⟩

/-- A year is read by its sign. -/
theorem readYear_eq {sign : List Char} (hsign : IsSign sign) (hunsigned : IsUnsigned sign rest)
    (h : Text.trimStart cs = sign ++ rest) :
    readYear cs = (readDigits (yearMost sign) rest).map fun (value, rest) => (signed sign value, rest) := by
  rw [readYear, h]
  rcases hsign with rfl | rfl | rfl
  · rw [List.nil_append]
    split
    · exact absurd rfl (hunsigned rfl '-' rfl).1
    · exact absurd rfl (hunsigned rfl '+' rfl).2
    · rfl
  · rfl
  · rfl

/-- **Reading a year** takes a sign before it, and then any number of digits. -/
theorem readYear_eq_some_iff {year : Int} :
    readYear cs = some (year, rest) ↔ ∃ (sign : List Char) (form : NumberForm), IsSign sign ∧
      cs = form.blanks ++ (sign ++ (form.digits ++ rest)) ∧ IsTaken (yearMost sign) form.digits rest ∧
        signed sign form.value = year := by
  constructor
  · intro h
    obtain ⟨blanks, hcs, hblanks⟩ := Text.exists_blanks_trimStart cs
    obtain ⟨sign, unsigned, htrimmed, hsign, hunsigned⟩ := exists_sign (Text.trimStart cs)
    rw [readYear_eq hsign hunsigned htrimmed] at h
    obtain ⟨⟨value, others⟩, hread, hpair⟩ := Option.map_eq_some_iff.mp h
    obtain ⟨rfl, rfl⟩ := Prod.mk.inj hpair
    obtain ⟨digits, rfl, htaken, rfl⟩ := readDigits_eq_some_iff.mp hread
    refine ⟨sign, ⟨blanks, digits, hblanks, htaken.ne_nil, htaken.isDigit⟩, hsign, ?_, htaken, rfl⟩
    rw [hcs, htrimmed]
  · rintro ⟨sign, form, hsign, rfl, htaken, rfl⟩
    have hunsigned : IsUnsigned sign (form.digits ++ rest) := by
      intro _ c hc
      have hdigit := form.isDigit_head? rest c hc
      constructor <;> rintro rfl <;> exact absurd hdigit (by decide)
    have hblank : ∀ c ∈ (sign ++ (form.digits ++ rest)).head?, isBlank c = false := by
      rcases hsign with rfl | rfl | rfl
      · exact form.isBlank_head? rest
      · rintro c ⟨⟩
        decide
      · rintro c ⟨⟩
        decide
    have hread := readDigits_eq_some_iff.mpr ⟨form.digits, rfl, htaken, rfl⟩
    rw [readYear_eq hsign hunsigned (Text.trimStart_append form.isBlank_blanks hblank), hread]
    rfl

theorem readLiteral_eq_some_iff {expected : List Char} :
    readLiteral expected cs = some rest ↔ cs = expected ++ rest := by
  rw [readLiteral]
  constructor
  · intro h
    split at h
    · rename_i hprefix
      obtain ⟨others, rfl⟩ := List.isPrefixOf_iff_prefix.mp hprefix
      rw [List.drop_left] at h
      rw [Option.some.inj h]
    · cases h
  · rintro rfl
    rw [if_pos (List.isPrefixOf_iff_prefix.mpr (List.prefix_append _ _)), List.drop_left]

/-! ### Texts of dates -/

/-- A text of a date: three numbers, a sign before the first, and the same characters between each
two. Where nothing stands between two numbers, the first has all digits that it may have. -/
structure DateForm where
  between : List Char
  sign : List Char
  year : NumberForm
  month : NumberForm
  day : NumberForm
  between_eq : between = ['-'] ∨ between = []
  isSign_sign : IsSign sign
  length_year : sign = [] → year.digits.length ≤ 4
  length_month : month.digits.length ≤ 2
  length_day : day.digits.length ≤ 2
  year_ends : between ++ month.blanks = [] → sign = [] ∧ year.digits.length = 4
  month_ends : between ++ day.blanks = [] → month.digits.length = 2

namespace DateForm

def chars (form : DateForm) : List Char :=
  form.year.blanks ++ form.sign ++ form.year.digits ++ form.between ++ form.month.chars ++ form.between ++
    form.day.chars

/-- Whether the numbers are those of the date. -/
def Denotes (form : DateForm) (date : Date) : Prop :=
  date.year = signed form.sign form.year.value ∧ date.month = form.month.value ∧ date.day = form.day.value

/-- In a text of a date there are two minuses between numbers, or none, and possibly one before the year. -/
theorem count_minus_chars (form : DateForm) :
    form.chars.count '-' = form.sign.count '-' + 2 * form.between.count '-' := by
  have hdigits : ∀ number : NumberForm, number.digits.count '-' = 0 := fun number =>
    List.count_eq_zero.mpr fun h => absurd (number.isDigit_digits _ h) (by decide)
  have hblanks : ∀ number : NumberForm, number.blanks.count '-' = 0 := fun number =>
    List.count_eq_zero.mpr fun h => absurd (number.isBlank_blanks _ h) (by decide)
  simp only [chars, NumberForm.chars, List.count_append, hdigits, hblanks]
  omega

/-- No text is read both with and without hyphens. -/
theorem between_eq_of_chars_eq {first second : DateForm} (h : first.chars = second.chars) :
    first.between = second.between := by
  have hsign : ∀ form : DateForm, form.sign.count '-' ≤ 1 := by
    intro form
    rcases form.isSign_sign with hsign | hsign | hsign <;> rw [hsign] <;> decide
  have hcount := congrArg (List.count '-') h
  rw [count_minus_chars, count_minus_chars] at hcount
  have hfirst := hsign first
  have hsecond := hsign second
  rcases first.between_eq with hbetween | hbetween <;> rcases second.between_eq with hother | hother
  · rw [hbetween, hother]
  · rw [hbetween, hother, List.count_singleton_self, List.count_nil] at hcount
    omega
  · rw [hbetween, hother, List.count_singleton_self, List.count_nil] at hcount
    omega
  · rw [hbetween, hother]

end DateForm

theorem yearMost_eq_some_iff {sign : List Char} {count : Nat} :
    yearMost sign = some count ↔ sign = [] ∧ count = 4 := by
  rw [yearMost]
  split <;> simp [*, eq_comm]

/-- The digits of a number end before what stands between it and the next. If nothing does, they are
as many as there may be. -/
theorem isTaken_before_iff (form next : NumberForm) (tail : List Char)
    (hbetween : between = ['-'] ∨ between = []) :
    IsTaken most form.digits (between ++ (next.chars ++ tail)) ↔
      (∀ count ∈ most, form.digits.length ≤ count) ∧
        (between ++ next.blanks = [] → most = some form.digits.length) := by
  have hassoc : between ++ (next.chars ++ tail) = (between ++ next.blanks) ++ (next.digits ++ tail) := by
    simp [NumberForm.chars]
  have hgap : ∀ c ∈ between ++ next.blanks, c.isDigit = false := by
    intro c hc
    rcases List.mem_append.mp hc with hc | hc
    · rcases hbetween with rfl | rfl
      · obtain rfl := List.mem_singleton.mp hc
        decide
      · cases hc
    · rw [Bool.eq_false_iff]
      intro hdigit
      exact absurd (next.isBlank_blanks c hc) (by simp [Text.isBlank_of_isDigit hdigit])
  rw [hassoc]
  generalize between ++ next.blanks = gap at hgap ⊢
  constructor
  · intro h
    refine ⟨h.length_le, ?_⟩
    rintro rfl
    -- the digits of the next number would be read too
    refine h.ends.resolve_left fun hends => ?_
    obtain ⟨c, others, hdigits⟩ := List.exists_cons_of_ne_nil next.digits_ne_nil
    have hhead : c ∈ (next.digits ++ tail).head? := by
      rw [hdigits]
      rfl
    have hdigit := next.isDigit_head? tail c hhead
    rw [hends c hhead] at hdigit
    cases hdigit
  · rintro ⟨hlength, hfilled⟩
    refine ⟨form.digits_ne_nil, form.isDigit_digits, hlength, ?_⟩
    cases gap with
    | nil => exact .inr (hfilled rfl)
    | cons c others =>
      refine .inl fun d hd => ?_
      obtain rfl := Option.some.inj hd
      exact hgap c List.mem_cons_self

/-- The last number ends with the text. -/
theorem isTaken_nil_iff (form : NumberForm) {most : Nat} :
    IsTaken (some most) form.digits [] ↔ form.digits.length ≤ most := by
  constructor
  · intro h
    exact h.length_le most rfl
  · intro h
    refine ⟨form.digits_ne_nil, form.isDigit_digits, fun count hcount => ?_, .inl (by simp)⟩
    obtain rfl := Option.some.inj hcount
    exact h

/-- **Reading three numbers** takes the characters between them. -/
theorem readNumbers_eq_some_iff {year : Int} {month day : Nat} :
    readNumbers between cs = some ((year, month, day), rest) ↔
      ∃ afterYear afterMonth, readYear cs = some (year, between ++ afterYear) ∧
        readNumber 2 afterYear = some (month, between ++ afterMonth) ∧
          readNumber 2 afterMonth = some (day, rest) := by
  simp only [readNumbers, bind, Option.bind_eq_some_iff, readLiteral_eq_some_iff, Prod.exists]
  constructor
  · rintro ⟨_, _, hyear, _, rfl, _, _, hmonth, _, rfl, _, _, hday, h⟩
    obtain ⟨⟨rfl, rfl, rfl⟩, rfl⟩ : (_ ∧ _ ∧ _) ∧ _ := by simpa using h
    exact ⟨_, _, hyear, hmonth, hday⟩
  · rintro ⟨_, _, hyear, hmonth, hday⟩
    exact ⟨_, _, hyear, _, rfl, _, _, hmonth, _, rfl, _, _, hday, rfl⟩

theorem ofNumbers?_eq_some_iff {year : Int} {month day : Nat} :
    ofNumbers? year month day = some date ↔ date.year = year ∧ date.month = month ∧ date.day = day := by
  constructor
  · exact ofNumbers?_eq_some
  · rintro ⟨rfl, rfl, rfl⟩
    exact dif_pos date.isDay

theorem readWith_eq_some_iff_readNumbers :
    readWith between cs = some date ↔
      readNumbers between cs = some ((date.year, date.month, date.day), []) := by
  rw [readWith]
  constructor
  · intro h
    obtain ⟨⟨⟨year, month, day⟩, rest⟩, hnumbers, h⟩ := Option.bind_eq_some_iff.mp h
    change (if rest.isEmpty = true then ofNumbers? year month day else none) = some date at h
    split at h
    · rename_i hrest
      obtain ⟨rfl, rfl, rfl⟩ := ofNumbers?_eq_some_iff.mp h
      rw [hnumbers, List.isEmpty_iff.mp hrest]
    · cases h
  · intro h
    rw [h]
    exact ofNumbers?_eq_some_iff.mpr ⟨rfl, rfl, rfl⟩

theorem readWith_eq_some_iff (hbetween : between = ['-'] ∨ between = []) :
    readWith between cs = some date ↔
      ∃ form : DateForm, form.between = between ∧ form.chars = cs ∧ form.Denotes date := by
  rw [readWith_eq_some_iff_readNumbers, readNumbers_eq_some_iff]
  constructor
  · rintro ⟨afterYear, afterMonth, hyear, hmonth, hday⟩
    obtain ⟨sign, year, hsign, rfl, hyear, hyearValue⟩ := readYear_eq_some_iff.mp hyear
    obtain ⟨month, rfl, hmonth, hmonthValue⟩ := readNumber_eq_some_iff.mp hmonth
    obtain ⟨day, rfl, hday, hdayValue⟩ := readNumber_eq_some_iff.mp hday
    rw [isTaken_before_iff _ _ _ hbetween] at hyear hmonth
    rw [isTaken_nil_iff] at hday
    refine ⟨⟨between, sign, year, month, day, hbetween, hsign, ?_, hmonth.1 2 rfl, hday, ?_, ?_⟩, rfl, ?_, ?_⟩
    · rintro rfl
      exact hyear.1 4 rfl
    · exact fun h => yearMost_eq_some_iff.mp (hyear.2 h)
    · exact fun h => (Option.some.inj (hmonth.2 h)).symm
    · simp [DateForm.chars]
    · exact ⟨hyearValue.symm, hmonthValue.symm, hdayValue.symm⟩
  · rintro ⟨form, rfl, rfl, hyearValue, hmonthValue, hdayValue⟩
    refine ⟨form.month.chars ++ (form.between ++ (form.day.chars ++ [])), form.day.chars ++ [],
      readYear_eq_some_iff.mpr ⟨form.sign, form.year, form.isSign_sign, ?_, ?_, hyearValue.symm⟩,
      readNumber_eq_some_iff.mpr ⟨form.month, rfl, ?_, hmonthValue.symm⟩,
      readNumber_eq_some_iff.mpr ⟨form.day, rfl, ?_, hdayValue.symm⟩⟩
    · simp [DateForm.chars]
    · rw [isTaken_before_iff _ _ _ hbetween]
      refine ⟨fun count hcount => ?_, fun h => yearMost_eq_some_iff.mpr (form.year_ends h)⟩
      obtain ⟨hsign, rfl⟩ := yearMost_eq_some_iff.mp hcount
      exact form.length_year hsign
    · rw [isTaken_before_iff _ _ _ hbetween]
      refine ⟨fun count hcount => ?_, fun h => congrArg some (form.month_ends h).symm⟩
      obtain rfl := Option.some.inj hcount
      exact form.length_month
    · exact (isTaken_nil_iff form.day).mpr form.length_day

/-- **Reading a date.** A text is read as the date that it denotes. -/
theorem read?_eq_some_iff {text : String} :
    read? text = some date ↔ ∃ form : DateForm, form.chars = text.toList ∧ form.Denotes date := by
  rw [read?, Option.or_eq_some_iff, readWith_eq_some_iff (.inl rfl), readWith_eq_some_iff (.inr rfl)]
  constructor
  · rintro (⟨form, -, hchars, hdate⟩ | ⟨-, form, -, hchars, hdate⟩)
    · exact ⟨form, hchars, hdate⟩
    · exact ⟨form, hchars, hdate⟩
  · rintro ⟨form, hchars, hdate⟩
    rcases form.between_eq with hbetween | hbetween
    · exact .inl ⟨form, hbetween, hchars, hdate⟩
    · refine .inr ⟨?_, form, hbetween, hchars, hdate⟩
      rw [Option.eq_none_iff_forall_ne_some]
      intro other hother
      obtain ⟨hyphens, hbetween', hchars', -⟩ := (readWith_eq_some_iff (.inl rfl)).mp hother
      have hsame := DateForm.between_eq_of_chars_eq (hchars.trans hchars'.symm)
      rw [hbetween, hbetween'] at hsame
      cases hsame

end Date

end InvoiceXml
