import InvoiceXml.Proofs.Calendar.Reader
import InvoiceXml.Validator.Standard

/-!
# The normal form of dates

A date with a year of four digits is written in eight digits, which are read as the same date
(`Date.read?_compact`). Any other year is written with a sign, and takes the digits of month and day
when it is read, so that what is written is no text of a date (`Date.read?_compact_eq_none`).

* **`Validator.checkDate_str`**: which texts are let pass as dates, and what they become.
-/

namespace InvoiceXml

namespace Date

open Text (isBlank numeralValue)

variable {date : Date}

/-- Whether there are exactly eight digits, no blanks and no sign. -/
structure DateForm.IsStrict (form : DateForm) : Prop where
  sign : form.sign = []
  blanks : form.year.blanks = [] ∧ form.month.blanks = [] ∧ form.day.blanks = []
  lengths : form.year.digits.length = 4 ∧ form.month.digits.length = 2 ∧ form.day.digits.length = 2

/-- Whether the year has no more than four digits, and no sign. -/
def HasFourDigitYear (date : Date) : Prop := 0 ≤ date.year ∧ date.year ≤ 9999

theorem hasFourDigitYear_of_sign (form : DateForm) (h : form.Denotes date) (hsign : form.sign = []) :
    date.HasFourDigitYear := by
  have hlt := Text.numeralValue_lt form.year.isDigit_digits
  have hlength := Nat.pow_le_pow_right (show 0 < 10 by decide) (form.length_year hsign)
  have hyear : date.year = (numeralValue form.year.digits : Int) := by
    rw [h.1, hsign, signed, if_neg (by simp), NumberForm.value]
  rw [HasFourDigitYear, hyear]
  omega

theorem daysInMonth_le (year : Int) (month : Nat) : Calendar.daysInMonth year month ≤ 31 := by
  unfold Calendar.daysInMonth
  split
  · split <;> decide
  all_goals decide

theorem daysInMonth_eq_zero (year : Int) {month : Nat} (h : 12 < month) :
    Calendar.daysInMonth year month = 0 := by
  unfold Calendar.daysInMonth
  split
  all_goals omega

theorem day_pos_and_le (date : Date) :
    1 ≤ date.day ∧ date.day ≤ Calendar.daysInMonth date.year date.month := by
  have h := date.isDay
  simp only [Calendar.isDay, Bool.and_eq_true, decide_eq_true_eq] at h
  exact ⟨h.1.2, h.2⟩

theorem month_le (date : Date) : date.month ≤ 12 := by
  obtain ⟨hpos, hle⟩ := date.day_pos_and_le
  refine Nat.not_lt.mp fun hlt => ?_
  rw [daysInMonth_eq_zero _ hlt] at hle
  omega

theorem day_le (date : Date) : date.day ≤ 31 := date.day_pos_and_le.2.trans (daysInMonth_le _ _)

/-- A number in so many digits. -/
def NumberForm.padded (width n : Nat) : NumberForm where
  blanks := []
  digits := Text.padLeft width (Text.digits n)
  isBlank_blanks := by simp
  digits_ne_nil := by simp [Text.padLeft, Text.digits_ne_nil]
  isDigit_digits := by
    intro c hc
    rcases List.mem_append.mp hc with hc | hc
    · rw [List.eq_of_mem_replicate hc]
      decide
    · exact Text.isDigit_of_mem_digits hc

theorem NumberForm.value_padded (width n : Nat) : (padded width n).value = n :=
  (Text.numeralValue_padLeft width _).trans (Text.numeralValue_digits n)

theorem NumberForm.length_padded {width n : Nat} (hwidth : 0 < width) (h : n < 10 ^ width) :
    (padded width n).digits.length = width := by
  rw [padded, Text.length_padLeft]
  exact Nat.max_eq_left (Text.length_digits_le hwidth h)

theorem length_padded_month (date : Date) : (NumberForm.padded 2 date.month).digits.length = 2 :=
  NumberForm.length_padded (by decide) (Nat.lt_of_le_of_lt date.month_le (by decide))

theorem length_padded_day (date : Date) : (NumberForm.padded 2 date.day).digits.length = 2 :=
  NumberForm.length_padded (by decide) (Nat.lt_of_le_of_lt date.day_le (by decide))

theorem length_padded_year (h : date.HasFourDigitYear) :
    (NumberForm.padded 4 date.year.natAbs).digits.length = 4 := by
  obtain ⟨hlow, hhigh⟩ := h
  exact NumberForm.length_padded (by decide) (by omega)

/-- The eight digits of a date. -/
def eightDigits (date : Date) (h : date.HasFourDigitYear) : DateForm where
  between := []
  sign := []
  year := .padded 4 date.year.natAbs
  month := .padded 2 date.month
  day := .padded 2 date.day
  between_eq := .inr rfl
  isSign_sign := .inl rfl
  length_year := fun _ => Nat.le_of_eq (length_padded_year h)
  length_month := Nat.le_of_eq date.length_padded_month
  length_day := Nat.le_of_eq date.length_padded_day
  year_ends := fun _ => ⟨rfl, length_padded_year h⟩
  month_ends := fun _ => date.length_padded_month

theorem isStrict_eightDigits (h : date.HasFourDigitYear) : (date.eightDigits h).IsStrict :=
  ⟨rfl, ⟨rfl, rfl, rfl⟩, length_padded_year h, date.length_padded_month, date.length_padded_day⟩

theorem denotes_eightDigits (h : date.HasFourDigitYear) : (date.eightDigits h).Denotes date := by
  refine ⟨?_, (NumberForm.value_padded 2 _).symm, (NumberForm.value_padded 2 _).symm⟩
  have hvalue : (date.eightDigits h).year.value = date.year.natAbs := NumberForm.value_padded 4 _
  have hsign : (date.eightDigits h).sign = [] := rfl
  rw [hvalue, hsign, signed, if_neg (by simp)]
  have hlow := h.1
  omega

theorem chars_eightDigits (h : date.HasFourDigitYear) : (date.eightDigits h).chars = date.compact.toList := by
  have hyear : yearDigits date.year = Text.padLeft 4 (Text.digits date.year.natAbs) := if_pos h
  rw [compact, String.toList_ofList, hyear]
  simp [eightDigits, DateForm.chars, NumberForm.chars, NumberForm.padded, twoDigits]

/-- **Eight digits are read as their date.** -/
theorem read?_compact (h : date.HasFourDigitYear) : read? date.compact = some date :=
  read?_eq_some_iff.mpr ⟨date.eightDigits h, chars_eightDigits h, denotes_eightDigits h⟩

/-- Any other year is written with a sign. -/
theorem exists_sign_compact (h : ¬date.HasFourDigitYear) :
    ∃ c digits, date.compact.toList = c :: digits ∧ (c = '-' ∨ c = '+') ∧ ∀ d ∈ digits, d.isDigit = true := by
  have hdigits :
      ∀ d ∈ Text.padLeft 4 (Text.digits date.year.natAbs) ++ twoDigits date.month ++ twoDigits date.day,
        d.isDigit = true := by
    intro d hd
    rcases List.mem_append.mp hd with hd | hd
    · rcases List.mem_append.mp hd with hd | hd
      · exact (NumberForm.padded 4 _).isDigit_digits d hd
      · exact (NumberForm.padded 2 _).isDigit_digits d hd
    · exact (NumberForm.padded 2 _).isDigit_digits d hd
  have hyear : yearDigits date.year =
      if date.year < 0 then '-' :: Text.padLeft 4 (Text.digits date.year.natAbs)
      else '+' :: Text.padLeft 4 (Text.digits date.year.natAbs) := if_neg h
  rw [compact, String.toList_ofList, hyear]
  split
  · exact ⟨'-', _, rfl, .inl rfl, hdigits⟩
  · exact ⟨'+', _, rfl, .inr rfl, hdigits⟩

/-- **A signed year without hyphens is not read**, as its digits take those of the month. -/
theorem read?_compact_eq_none (h : ¬date.HasFourDigitYear) : read? date.compact = none := by
  obtain ⟨c, digits, hcompact, hc, hdigits⟩ := exists_sign_compact h
  rw [Option.eq_none_iff_forall_ne_some]
  intro other hread
  obtain ⟨form, hchars, -⟩ := read?_eq_some_iff.mp hread
  rw [hcompact] at hchars
  have hcount : form.chars.count '-' ≤ 1 := by
    have hnone : digits.count '-' = 0 := List.count_eq_zero.mpr fun h => absurd (hdigits _ h) (by decide)
    rw [hchars, List.count_cons, hnone]
    split <;> decide
  have hbetween : form.between = [] := by
    refine form.between_eq.resolve_left fun hbetween => ?_
    rw [form.count_minus_chars, hbetween, List.count_singleton_self] at hcount
    omega
  have hblanks : ∀ blanks : List Char, (∀ d ∈ blanks, isBlank d = true) → blanks ⊆ form.chars →
      blanks = [] := by
    intro blanks hblanks hsubset
    refine List.eq_nil_iff_forall_not_mem.mpr fun d hd => ?_
    have hblank := hblanks d hd
    rcases List.mem_cons.mp (hchars ▸ hsubset hd) with rfl | hd
    · rcases hc with rfl | rfl <;> exact absurd hblank (by decide)
    · rw [Text.isBlank_of_isDigit (hdigits d hd)] at hblank
      cases hblank
  have hmonth : form.month.blanks = [] :=
    hblanks _ form.month.isBlank_blanks fun d hd => by simp [DateForm.chars, NumberForm.chars, hd]
  have hyear : form.year.blanks = [] :=
    hblanks _ form.year.isBlank_blanks fun d hd => by simp [DateForm.chars, hd]
  obtain ⟨hsign, -⟩ := form.year_ends (by rw [hbetween, hmonth, List.append_nil])
  -- so the text starts with a digit
  have hdigit := form.year.isDigit_head?
    (form.between ++ form.month.chars ++ form.between ++ form.day.chars) c (by
      rw [DateForm.chars, hyear, hsign] at hchars
      simp only [List.nil_append, List.append_assoc] at hchars ⊢
      rw [hchars]
      rfl)
  rcases hc with rfl | rfl <;> exact absurd hdigit (by decide)

end Date

namespace Validator

open Date (DateForm NumberForm)

theorem checkDate_eq_ok_iff {text : String} {normal : Data} :
    checkDate (.str text) = .ok normal ↔ ∃ date, Date.read? text = some date ∧
      normal = .str date.compact := by
  rw [checkDate]
  cases Date.read? text <;> simp [eq_comm]

/-- **Dates.** A text is let pass if and only if it is made of three numbers, with blanks before
each of them and a sign before the year allowed, that are a day of the calendar. It becomes the
eight digits of this day, which stay as they are, if the year is between 0 and 9999, as it is
without a sign. Otherwise it becomes a text that is not let pass. -/
theorem checkDate_str (text : String) :
    (∀ normal, checkDate (.str text) = .ok normal ↔ ∃ (form : DateForm) (date : Date),
      form.chars = text.toList ∧ form.Denotes date ∧ normal = .str date.compact) ∧
    ∀ (form : DateForm) (date : Date), form.chars = text.toList → form.Denotes date →
      (form.sign = [] → date.HasFourDigitYear) ∧
      (date.HasFourDigitYear →
        (∃ digits : DateForm, digits.IsStrict ∧ digits.between = [] ∧ digits.chars = date.compact.toList ∧
          digits.Denotes date) ∧
        checkDate (.str date.compact) = .ok (.str date.compact)) ∧
      (¬date.HasFourDigitYear → checkDate (.str date.compact) = .error [.notDate date.compact]) := by
  refine ⟨fun normal => ?_, fun form date _ hdate =>
    ⟨Date.hasFourDigitYear_of_sign form hdate, fun h => ?_, fun h => ?_⟩⟩
  · rw [checkDate_eq_ok_iff]
    constructor
    · rintro ⟨date, hread, rfl⟩
      obtain ⟨form, hchars, hdate⟩ := Date.read?_eq_some_iff.mp hread
      exact ⟨form, date, hchars, hdate, rfl⟩
    · rintro ⟨form, date, hchars, hdate, rfl⟩
      exact ⟨date, Date.read?_eq_some_iff.mpr ⟨form, hchars, hdate⟩, rfl⟩
  · refine ⟨⟨date.eightDigits h, Date.isStrict_eightDigits h, rfl, Date.chars_eightDigits h,
      Date.denotes_eightDigits h⟩, ?_⟩
    exact checkDate_eq_ok_iff.mpr ⟨date, Date.read?_compact h, rfl⟩
  · rw [checkDate, Date.read?_compact_eq_none h]

/-- A text with blanks, and with single digits of month and day. -/
theorem checkDate_str_blanks :
    checkDate (.str " 2024- 1-2") = .ok (.str "20240102") ∧
      checkDate (.str "20240102") = .ok (.str "20240102") := by
  have hread : Date.read? " 2024- 1-2" = some ⟨2024, 1, 2, by decide⟩ := by decide +kernel
  have hcompact : (⟨2024, 1, 2, by decide⟩ : Date).compact = "20240102" := by decide +kernel
  obtain ⟨form, hchars, hdate⟩ := Date.read?_eq_some_iff.mp hread
  obtain ⟨haccepted, hnormal⟩ := checkDate_str " 2024- 1-2"
  obtain ⟨-, hfixed, -⟩ := hnormal form _ hchars hdate
  rw [← hcompact]
  exact ⟨(haccepted _).mpr ⟨form, _, hchars, hdate, rfl⟩, (hfixed ⟨by decide, by decide⟩).2⟩

/-- A signed year may have five digits: the text is no strict form of a date, and what it becomes is
not let pass. -/
theorem not_strict_of_checkDate_signed :
    ¬∀ (text : String) (normal : Data), checkDate (.str text) = .ok normal →
      ∃ (form digits : DateForm) (date : Date), form.IsStrict ∧ form.chars = text.toList ∧ form.Denotes date ∧
        digits.IsStrict ∧ digits.between = [] ∧ digits.Denotes date ∧
        normal = .str (String.ofList digits.chars) ∧ checkDate normal = .ok normal := by
  intro h
  have hread : Date.read? "+12024-01-02" = some ⟨12024, 1, 2, by decide⟩ := by decide +kernel
  have hcompact : (⟨12024, 1, 2, by decide⟩ : Date).compact = "+120240102" := by decide +kernel
  have haccepted : checkDate (.str "+12024-01-02") = .ok (.str "+120240102") :=
    checkDate_eq_ok_iff.mpr ⟨_, hread, by rw [hcompact]⟩
  obtain ⟨form, digits, date, -, -, -, -, -, -, -, hfixed⟩ := h "+12024-01-02" _ haccepted
  obtain ⟨other, hother, -⟩ := checkDate_eq_ok_iff.mp hfixed
  have hrejected : Date.read? "+120240102" = none := by decide +kernel
  rw [hrejected] at hother
  cases hother

end Validator

end InvoiceXml
