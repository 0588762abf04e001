import InvoiceXml.Calendar.Instant
import InvoiceXml.Proofs.Calendar.Date
import Mathlib.Tactic.SplitIfs

/-!
# Reading written points in time

A point in time is written in numbers of two digits, but for the year and the fraction, with a mark
behind each of them. So the year ends where its mark stands (`readYear_yearDigits`), every other
number when its width is reached (`readNumber_twoDigits`), and a fraction before the `Z`
(`readFraction_fractionDigits`).

* **`read?_render`**: a point in time is read as itself if its numbers are those of a time of day.
-/

namespace InvoiceXml

namespace Instant

open Date (NumberForm IsTaken)

/-- Whether the numbers are those of a time of day. -/
structure IsTime (instant : Instant) : Prop where
  minuteOfDay_lt : instant.minuteOfDay < minutesPerDay
  second_le : instant.second ≤ 60
  nanosecond_lt : instant.nanosecond < 10 ^ 9

variable {rest : List Char}

/-- As many digits as may be are read, whatever is behind them. -/
theorem readNumber_twoDigits {n : Nat} (h : n < 100) (rest : List Char) :
    Date.readNumber 2 (Date.twoDigits n ++ rest) = some (n, rest) := by
  have hlength : (NumberForm.padded 2 n).digits.length = 2 := NumberForm.length_padded (by decide) h
  refine Date.readNumber_eq_some_iff.mpr ⟨.padded 2 n, rfl, ?_, NumberForm.value_padded 2 n⟩
  exact ⟨NumberForm.digits_ne_nil _, NumberForm.isDigit_digits _, by simp [hlength], .inr (by rw [hlength])⟩

/-- A year is read up to a character that is no digit. -/
theorem readYear_yearDigits (year : Int) (hrest : ∀ c ∈ rest.head?, c.isDigit = false) :
    Date.readYear (Date.yearDigits year ++ rest) = some (year, rest) := by
  let form : NumberForm := .padded 4 year.natAbs
  have hvalue : form.value = year.natAbs := NumberForm.value_padded 4 _
  have hread : ∀ sign, Date.IsSign sign → Date.yearDigits year = sign ++ form.digits →
      (∀ count ∈ Date.yearMost sign, form.digits.length ≤ count) → Date.signed sign form.value = year →
      Date.readYear (Date.yearDigits year ++ rest) = some (year, rest) := by
    intro sign hsign hdigits hlength hyear
    refine Date.readYear_eq_some_iff.mpr ⟨sign, form, hsign, ?_, ?_, hyear⟩
    · rw [hdigits, List.append_assoc]
      rfl
    · exact ⟨form.digits_ne_nil, form.isDigit_digits, hlength, .inl hrest⟩
  by_cases hplain : 0 ≤ year ∧ year ≤ 9999
  · have hlength : form.digits.length = 4 := NumberForm.length_padded (by decide) (by omega)
    refine hread [] (.inl rfl) (if_pos hplain) (by simp [Date.yearMost, hlength]) ?_
    rw [Date.signed, if_neg (by simp), hvalue]
    omega
  · by_cases hnegative : year < 0
    · refine hread ['-'] (.inr (.inl rfl)) ((if_neg hplain).trans (if_pos hnegative))
        (by simp [Date.yearMost]) ?_
      rw [Date.signed, if_pos rfl, hvalue]
      omega
    · refine hread ['+'] (.inr (.inr rfl)) ((if_neg hplain).trans (if_neg hnegative))
        (by simp [Date.yearMost]) ?_
      rw [Date.signed, if_neg (by simp), hvalue]
      omega

/-- So many digits behind a point are that part of a second. -/
theorem readFraction_padLeft {width value : Nat} (hwidth : 0 < width) (hmost : width ≤ 9)
    (hvalue : value < 10 ^ width) :
    readFraction ('.' :: (Text.padLeft width (Text.digits value) ++ 'Z' :: rest)) =
      some (value * 10 ^ (9 - width), 'Z' :: rest) := by
  let form : NumberForm := .padded width value
  have hlength : form.digits.length = width := NumberForm.length_padded hwidth hvalue
  have htake : (form.digits ++ 'Z' :: rest).takeWhile Char.isDigit = form.digits := by
    rw [List.takeWhile_append_of_pos form.isDigit_digits, List.takeWhile_cons_of_neg (by decide),
      List.append_nil]
  have hvalue : Text.numeralValue form.digits = value := NumberForm.value_padded width value
  show readFraction ('.' :: (form.digits ++ 'Z' :: rest)) = _
  simp only [readFraction, htake]
  rw [if_neg (by simp [form.digits_ne_nil]), List.take_of_length_le (by omega), hvalue, hlength, ← hlength,
    List.drop_left]
  rfl

/-- **A written fraction is read as itself.** -/
theorem readFraction_fractionDigits {nanosecond : Nat} (h : nanosecond < 10 ^ 9) (rest : List Char) :
    readFraction (fractionDigits nanosecond ++ 'Z' :: rest) = some (nanosecond, 'Z' :: rest) := by
  rw [fractionDigits]
  split_ifs with hzero hmillis hmicros
  · rw [hzero]
    rfl
  · rw [List.cons_append, readFraction_padLeft (by decide) (by decide) (by omega)]
    congr 2
    omega
  · rw [List.cons_append, readFraction_padLeft (by decide) (by decide) (by omega)]
    congr 2
    omega
  · rw [List.cons_append, readFraction_padLeft (by decide) (by decide) h]
    congr 2
    omega

/-- A mark between numbers is read, blanks before it or not. -/
theorem readLiteral_trimStart {c : Char} (h : Text.isBlank c = false) (rest : List Char) :
    Date.readLiteral [c] (Text.trimStart (c :: rest)) = some rest := by
  have htrim : Text.trimStart (c :: rest) = c :: rest := List.dropWhile_cons_of_neg (by simp [h])
  rw [htrim]
  exact Date.readLiteral_eq_some_iff.mpr rfl

/-- No offset leaves the time as it is. -/
theorem earlier?_zero {instant : Instant} (h : instant.IsTime) : earlier? 0 instant = some instant := by
  have hlt : (instant.minuteOfDay : Int) < minutesPerDay := Int.ofNat_lt.mpr h.minuteOfDay_lt
  simp only [earlier?, Int.sub_zero]
  rw [if_neg (by omega), if_neg (by omega), Int.toNat_natCast]

/-- **A written point in time is read as itself.** -/
theorem read?_render {instant : Instant} (h : instant.IsTime) : read? instant.render = some instant := by
  have hminute : instant.minuteOfDay < 1440 := h.minuteOfDay_lt
  have hsecond : instant.second ≤ 60 := h.second_le
  have hmonth : instant.date.month < 100 := Nat.lt_of_le_of_lt instant.date.month_le (by decide)
  have hday : instant.date.day < 100 := Nat.lt_of_le_of_lt instant.date.day_le (by decide)
  have hhyphen := readLiteral_trimStart (c := '-') (by decide)
  have hcolon := readLiteral_trimStart (c := ':') (by decide)
  have hoffset : readOffset (Text.trimStart ['Z']) = some (0, []) := by decide
  have hdate : Date.ofNumbers? instant.date.year instant.date.month instant.date.day = some instant.date :=
    Date.ofNumbers?_eq_some_iff.mpr ⟨rfl, rfl, rfl⟩
  have hclock : instant.minuteOfDay / 60 * 60 + instant.minuteOfDay % 60 = instant.minuteOfDay :=
    Nat.div_add_mod' ..
  rw [read?, render, String.toList_ofList]
  simp only [List.append_assoc, List.cons_append]
  -- one number after the other, each up to its mark
  refine Option.bind_eq_some_iff.mpr ⟨_, readYear_yearDigits _ (by simp), ?_⟩
  refine Option.bind_eq_some_iff.mpr ⟨_, hhyphen _, ?_⟩
  refine Option.bind_eq_some_iff.mpr ⟨_, readNumber_twoDigits hmonth _, ?_⟩
  refine Option.bind_eq_some_iff.mpr ⟨_, hhyphen _, ?_⟩
  refine Option.bind_eq_some_iff.mpr ⟨_, readNumber_twoDigits hday _, ?_⟩
  refine (if_pos (.inl rfl)).trans ?_
  refine Option.bind_eq_some_iff.mpr ⟨_, rfl, ?_⟩
  refine Option.bind_eq_some_iff.mpr ⟨_, readNumber_twoDigits (by omega) _, ?_⟩
  refine Option.bind_eq_some_iff.mpr ⟨_, hcolon _, ?_⟩
  refine Option.bind_eq_some_iff.mpr ⟨_, readNumber_twoDigits (by omega) _, ?_⟩
  refine Option.bind_eq_some_iff.mpr ⟨_, hcolon _, ?_⟩
  refine Option.bind_eq_some_iff.mpr ⟨_, readNumber_twoDigits (by omega) _, ?_⟩
  refine Option.bind_eq_some_iff.mpr ⟨_, readFraction_fractionDigits h.nanosecond_lt _, ?_⟩
  refine Option.bind_eq_some_iff.mpr ⟨_, hoffset, ?_⟩
  refine (if_neg ?_).trans (Option.bind_eq_some_iff.mpr ⟨_, hdate, ?_⟩)
  · have hend : (Text.trimStart []).isEmpty = true := rfl
    simp only [hend, Bool.not_true, Bool.false_eq_true, false_or]
    omega
  · simp only [hclock]
    exact earlier?_zero h

end Instant

end InvoiceXml
