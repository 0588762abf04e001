import InvoiceXml.Proofs.Text.Numeral
import InvoiceXml.Proofs.Validator
import Mathlib.Algebra.Field.Rat
import Mathlib.Tactic.NormNum

/-!
# Decimals with a fixed count of places

A decimal is written with an optional minus, ASCII digits, and possibly a point and a fraction
(`DecimalNumeral`). Its text is that of no other decimal (`DecimalNumeral.chars_injective`), so a
text denotes at most one number.

The check of decimals takes digits of any script, and measures a fraction in bytes. It agrees with
the texts of decimals where the given text has no digits but those of ASCII, as for integers.

* **`Validator.checkDecimal_scale`**: which texts and integers are let pass with a scale, and what
  they become. With ASCII digits the result has as many places as the scale says and denotes the
  same number.
-/

namespace InvoiceXml

open Text (isDecimalDigit numeralValue)
open Validator (pointed byteSize filling fractionOf?)

/-- A decimal: whether it is negative, the digits before the point, at least one, and those after it. -/
structure DecimalNumeral where
  negative : Bool
  whole : List Char
  fraction : List Char
  whole_ne_nil : whole ≠ []
  isDigit_whole : ∀ c ∈ whole, c.isDigit = true
  isDigit_fraction : ∀ c ∈ fraction, c.isDigit = true

namespace DecimalNumeral

/-- The minus of a negative decimal. -/
def sign (decimal : DecimalNumeral) : List Char := if decimal.negative then ['-'] else []

/-- A decimal in characters; there is a point if there are digits after it. -/
def chars (decimal : DecimalNumeral) : List Char := decimal.sign ++ decimal.whole ++ pointed decimal.fraction

/-- A decimal as a text. -/
def text (decimal : DecimalNumeral) : String := String.ofList decimal.chars

/-- The number that a decimal denotes. -/
def value (decimal : DecimalNumeral) : ℚ :=
  (if decimal.negative then -1 else 1) * numeralValue (decimal.whole ++ decimal.fraction) /
    10 ^ decimal.fraction.length

theorem sign_eq (decimal : DecimalNumeral) : decimal.sign = [] ∨ decimal.sign = ['-'] := by
  rw [sign]
  split
  · exact .inr rfl
  · exact .inl rfl

/-- The fraction that the check of decimals finds. -/
theorem fractionOf?_chars (decimal : DecimalNumeral) : fractionOf? decimal.chars = some decimal.fraction := by
  refine Validator.fractionOf?_eq_some_iff.mpr ⟨decimal.sign, decimal.whole, rfl, decimal.sign_eq, ?_, ?_⟩
  · exact Validator.isDigits_iff.mpr
      ⟨decimal.whole_ne_nil, fun c hc => Text.isDecimalDigit_of_isDigit (decimal.isDigit_whole c hc)⟩
  · exact fun c hc => Text.isDecimalDigit_of_isDigit (decimal.isDigit_fraction c hc)

/-- **Different decimals have different texts.** -/
theorem chars_injective {first second : DecimalNumeral} (h : first.chars = second.chars) :
    first = second := by
  have hfraction : first.fraction = second.fraction := by
    have hfound := first.fractionOf?_chars
    rw [h, second.fractionOf?_chars] at hfound
    exact (Option.some.inj hfound).symm
  have hfront : first.sign ++ first.whole = second.sign ++ second.whole := by
    rw [chars, chars, hfraction] at h
    exact List.append_cancel_right h
  have hminus : ∀ decimal : DecimalNumeral, '-' ∉ decimal.whole := by
    intro decimal hmem
    exact absurd (decimal.isDigit_whole _ hmem) (by decide)
  obtain ⟨negative, whole, fraction, _, _, _⟩ := first
  obtain ⟨negative', whole', fraction', _, _, _⟩ := second
  obtain rfl : fraction = fraction' := hfraction
  have hfirst := hminus ⟨negative, whole, fraction, ‹_›, ‹_›, ‹_›⟩
  have hsecond := hminus ⟨negative', whole', fraction, ‹_›, ‹_›, ‹_›⟩
  -- a minus in front of only one of them would be a digit of the other
  cases negative <;> cases negative'
  · obtain rfl : whole = whole' := hfront
    rfl
  · obtain rfl : whole = '-' :: whole' := hfront
    exact absurd List.mem_cons_self hfirst
  · obtain rfl : '-' :: whole = whole' := hfront
    exact absurd List.mem_cons_self hsecond
  · obtain rfl : whole = whole' := (List.cons.inj hfront).2
    rfl

/-! ### Zeros at the end -/

/-- A decimal with zeros after its last place. -/
def filled (decimal : DecimalNumeral) (count : Nat) : DecimalNumeral where
  negative := decimal.negative
  whole := decimal.whole
  fraction := decimal.fraction ++ List.replicate count '0'
  whole_ne_nil := decimal.whole_ne_nil
  isDigit_whole := decimal.isDigit_whole
  isDigit_fraction := by
    intro c hc
    rcases List.mem_append.mp hc with hc | hc
    · exact decimal.isDigit_fraction c hc
    · rw [List.eq_of_mem_replicate hc]
      decide

theorem length_fraction_filled (decimal : DecimalNumeral) (count : Nat) :
    (decimal.filled count).fraction.length = decimal.fraction.length + count := by
  rw [filled, List.length_append, List.length_replicate]

/-- **Zeros at the end do not change the number.** -/
theorem value_filled (decimal : DecimalNumeral) (count : Nat) :
    (decimal.filled count).value = decimal.value := by
  have hvalue : numeralValue (decimal.whole ++ (decimal.fraction ++ List.replicate count '0')) =
      numeralValue (decimal.whole ++ decimal.fraction) * 10 ^ count := by
    rw [← List.append_assoc, Text.numeralValue_append_zeros]
  have htens : (10 : ℚ) ^ count ≠ 0 := pow_ne_zero count (by norm_num)
  change (if decimal.negative then -1 else 1) *
    (numeralValue (decimal.whole ++ (decimal.fraction ++ List.replicate count '0')) : ℚ) /
      10 ^ (decimal.filled count).fraction.length = _
  rw [hvalue, length_fraction_filled, pow_add, Nat.cast_mul, Nat.cast_pow, Nat.cast_ofNat, ← mul_assoc,
    mul_div_mul_right _ _ htens, value]

/-! ### Integers -/

/-- An integer as a decimal. -/
def ofInt (n : Int) : DecimalNumeral where
  negative := decide (n < 0)
  whole := Text.digits n.natAbs
  fraction := []
  whole_ne_nil := Text.digits_ne_nil _
  isDigit_whole := fun _ => Text.isDigit_of_mem_digits
  isDigit_fraction := by simp

theorem chars_ofInt (n : Int) : (ofInt n).chars = Text.signedDigits n := by
  by_cases hn : n < 0 <;> simp [chars, sign, ofInt, pointed, Text.signedDigits, hn]

theorem value_ofInt (n : Int) : (ofInt n).value = n := by
  have hvalue : (ofInt n).value = (if n < 0 then -1 else 1) * (n.natAbs : ℚ) := by
    simp [value, ofInt, Text.numeralValue_digits]
  rw [hvalue, ← Int.cast_natCast]
  split
  · rw [show (n.natAbs : Int) = -n from by omega, Int.cast_neg, neg_one_mul, neg_neg]
  · rw [show (n.natAbs : Int) = n from by omega, one_mul]

end DecimalNumeral

namespace Data

/-- The text that spells a number: a text without its blank ends, or the digits of an integer. -/
def spelling? : Data → Option String
  | str s => some (Text.trimmed s)
  | num (.int n) => some (String.ofList (Text.signedDigits n))
  | _ => none

/-- The number that a text or an integer denotes. -/
inductive Denotes : Data → ℚ → Prop
  | text {s : String} (decimal : DecimalNumeral) (spelled : Text.trimmed s = decimal.text) :
    Denotes (str s) decimal.value
  | integer (n : Int) : Denotes (num (.int n)) n

variable {value : Data} {decimal : DecimalNumeral}

/-- What is spelled as a decimal denotes its number and no other. -/
theorem denotes_iff (h : value.spelling? = some decimal.text) (number : ℚ) :
    value.Denotes number ↔ number = decimal.value := by
  cases value with
  | str s =>
    have htext : Text.trimmed s = decimal.text := Option.some.inj h
    constructor
    · rintro (⟨other, hother⟩ | _)
      have hchars : other.chars = decimal.chars := String.ofList_injective (hother.symm.trans htext)
      rw [DecimalNumeral.chars_injective hchars]
    · rintro rfl
      exact .text decimal htext
  | num n =>
    cases n with
    | int n =>
      have hchars : (DecimalNumeral.ofInt n).chars = decimal.chars := by
        rw [DecimalNumeral.chars_ofInt]
        exact String.ofList_injective (Option.some.inj h)
      rw [← DecimalNumeral.chars_injective hchars, DecimalNumeral.value_ofInt]
      constructor
      · rintro (_ | _)
        rfl
      · rintro rfl
        exact .integer n
    | float _ => cases h
  | null | bool _ | arr _ | obj _ => cases h

end Data

namespace Validator

variable {cs fraction : List Char} {scale : Nat} {value normal : Data} {text : String}

/-- Whether all digits of a text are those of ASCII. -/
def HasAsciiDigits (cs : List Char) : Prop := ∀ c ∈ cs, isDecimalDigit c = true → c.isDigit = true

theorem hasAsciiDigits_chars (decimal : DecimalNumeral) : HasAsciiDigits decimal.chars := by
  intro c hc hdigit
  rcases List.mem_append.mp hc with hc | hc
  · rcases List.mem_append.mp hc with hc | hc
    · have hminus : c = '-' := by
        rcases decimal.sign_eq with hsign | hsign <;> rw [hsign] at hc
        · cases hc
        · exact List.mem_singleton.mp hc
      subst hminus
      exact absurd hdigit (by decide)
    · exact decimal.isDigit_whole c hc
  · rcases eq_point_or_mem_of_mem_pointed hc with rfl | hc
    · exact absurd hdigit (by decide)
    · exact decimal.isDigit_fraction c hc

/-- ASCII digits have one byte each. -/
theorem byteSize_of_isDigit (h : ∀ c ∈ cs, c.isDigit = true) : byteSize cs = cs.length := by
  induction cs with
  | nil => rfl
  | cons c rest ih =>
    have hsize : c.utf8Size = 1 := by
      have hhigh : c.toNat ≤ 57 := (Char.isDigit_iff_toNat.mp (h c List.mem_cons_self)).2
      rw [Char.utf8Size_eq_one_iff, UInt32.le_iff_toNat_le]
      exact Nat.le_trans hhigh (by decide)
    rw [byteSize_cons, hsize, ih fun d hd => h d (List.mem_cons_of_mem c hd), List.length_cons, Nat.add_comm]

/-- What the check finds a fraction in is a decimal if it has only ASCII digits. -/
theorem exists_decimal_of_fractionOf? (h : fractionOf? cs = some fraction) (hascii : HasAsciiDigits cs) :
    ∃ decimal : DecimalNumeral, decimal.chars = cs ∧ decimal.fraction = fraction := by
  obtain ⟨sign, whole, rfl, hsign, hwhole, hfraction⟩ := fractionOf?_eq_some_iff.mp h
  obtain ⟨hsome, hdigits⟩ := isDigits_iff.mp hwhole
  refine ⟨⟨sign == ['-'], whole, fraction, hsome, fun c hc => ?_, fun c hc => ?_⟩, ?_, rfl⟩
  · exact hascii c (List.mem_append_left _ (List.mem_append_right _ hc)) (hdigits c hc)
  · exact hascii c (List.mem_append_right _ (mem_pointed_of_mem hc)) (hfraction c hc)
  · rcases hsign with rfl | rfl <;> rfl

/-- A text or an integer is checked by what spells it. -/
theorem checkDecimal_of_spelling? (h : value.spelling? = some text) (scale : Option Nat) :
    checkDecimal scale value = checkDecimalText scale text := by
  cases value with
  | str s =>
    obtain rfl := Option.some.inj h
    rfl
  | num n =>
    cases n with
    | int n =>
      obtain rfl := Option.some.inj h
      rfl
    | float _ => cases h
  | null | bool _ | arr _ | obj _ => cases h

/-- The text of a decimal is let pass if there are not too many places. -/
theorem checkDecimalText_text (decimal : DecimalNumeral) (hle : decimal.fraction.length ≤ scale) :
    checkDecimalText (some scale) decimal.text =
      .ok (.str (decimal.filled (scale - decimal.fraction.length)).text) := by
  have hsize : byteSize decimal.fraction = decimal.fraction.length :=
    byteSize_of_isDigit decimal.isDigit_fraction
  refine checkDecimalText_scale_eq_ok_iff.mpr ⟨decimal.fraction, ?_, hsize ▸ hle, ?_⟩
  · rw [DecimalNumeral.text, String.toList_ofList, decimal.fractionOf?_chars]
  · rw [DecimalNumeral.text, DecimalNumeral.text, String.toList_ofList, DecimalNumeral.chars,
      DecimalNumeral.chars, List.append_assoc _ _ (filling _ _), pointed_append_filling, hsize]
    rfl

/-- A text that is let pass is a decimal if it has only ASCII digits. -/
theorem exists_decimal_of_checkDecimalText (h : checkDecimalText (some scale) text = .ok normal)
    (hascii : HasAsciiDigits text.toList) :
    ∃ decimal : DecimalNumeral, decimal.text = text ∧ decimal.fraction.length ≤ scale := by
  obtain ⟨fraction, hfraction, hsize, -⟩ := checkDecimalText_scale_eq_ok_iff.mp h
  obtain ⟨decimal, hchars, rfl⟩ := exists_decimal_of_fractionOf? hfraction hascii
  rw [byteSize_of_isDigit decimal.isDigit_fraction] at hsize
  exact ⟨decimal, by rw [DecimalNumeral.text, hchars, String.ofList_toList], hsize⟩

/-- **Decimals with a scale.** A text or an integer is let pass if and only if it is spelled with an
optional minus, digits of any script, and possibly a point and a fraction of at most as many bytes
as the scale has places; the fraction is filled up with zeros. Those that have only ASCII digits,
which all integers have, are the decimals with at most as many places as the scale. They become
decimals with exactly as many places, which denote the same number. -/
theorem checkDecimal_scale (scale : Nat) (value : Data) (text : String)
    (htext : value.spelling? = some text) :
    (∀ normal, checkDecimal (some scale) value = .ok normal ↔
      ∃ sign whole fraction, text.toList = sign ++ whole ++ pointed fraction ∧ (sign = [] ∨ sign = ['-']) ∧
        isDigits whole = true ∧ (∀ c ∈ fraction, isDecimalDigit c = true) ∧ byteSize fraction ≤ scale ∧
        normal = .str (String.ofList
          (sign ++ whole ++ pointed (fraction ++ List.replicate (scale - byteSize fraction) '0')))) ∧
    (∀ n, value = .num (.int n) → HasAsciiDigits text.toList) ∧
    ((∃ decimal : DecimalNumeral, decimal.text = text ∧ decimal.fraction.length ≤ scale) ↔
      (∃ normal, checkDecimal (some scale) value = .ok normal) ∧ HasAsciiDigits text.toList) ∧
    ∀ normal, checkDecimal (some scale) value = .ok normal → HasAsciiDigits text.toList →
      ∃ decimal : DecimalNumeral, normal = .str decimal.text ∧ decimal.fraction.length = scale ∧
        ∀ number, value.Denotes number ↔ number = decimal.value := by
  rw [checkDecimal_of_spelling? htext]
  refine ⟨fun normal => ?_, ?_, ⟨?_, ?_⟩, ?_⟩
  · rw [checkDecimalText_scale_eq_ok_iff]
    constructor
    · rintro ⟨fraction, hfraction, hsize, rfl⟩
      obtain ⟨sign, whole, hchars, hsign, hwhole, hdigits⟩ := fractionOf?_eq_some_iff.mp hfraction
      refine ⟨sign, whole, fraction, hchars, hsign, hwhole, hdigits, hsize, ?_⟩
      rw [hchars, List.append_assoc, pointed_append_filling]
    · rintro ⟨sign, whole, fraction, hchars, hsign, hwhole, hdigits, hsize, rfl⟩
      refine ⟨fraction, fractionOf?_eq_some_iff.mpr ⟨sign, whole, hchars, hsign, hwhole, hdigits⟩, hsize, ?_⟩
      rw [hchars, List.append_assoc _ _ (filling _ _), pointed_append_filling]
  · rintro n rfl
    obtain rfl := Option.some.inj htext
    rw [String.toList_ofList, ← DecimalNumeral.chars_ofInt]
    exact hasAsciiDigits_chars _
  · rintro ⟨decimal, rfl, hle⟩
    refine ⟨⟨_, checkDecimalText_text decimal hle⟩, ?_⟩
    rw [DecimalNumeral.text, String.toList_ofList]
    exact hasAsciiDigits_chars decimal
  · rintro ⟨⟨normal, hnormal⟩, hascii⟩
    obtain ⟨decimal, rfl, hle⟩ := exists_decimal_of_checkDecimalText hnormal hascii
    exact ⟨decimal, rfl, hle⟩
  · intro normal hnormal hascii
    obtain ⟨decimal, rfl, hle⟩ := exists_decimal_of_checkDecimalText hnormal hascii
    rw [checkDecimalText_text decimal hle] at hnormal
    refine ⟨decimal.filled (scale - decimal.fraction.length), (Except.ok.inj hnormal).symm, ?_,
      fun number => ?_⟩
    · rw [DecimalNumeral.length_fraction_filled]
      omega
    · rw [DecimalNumeral.value_filled, Data.denotes_iff htext]

/-- A text with a minus and one place, in an amount. -/
theorem checkDecimal_scale_minus :
    (Data.str " -7.5 ").spelling? = some "-7.5" ∧
    (∃ normal, checkDecimal (some 2) (.str " -7.5 ") = .ok normal) ∧
    ∀ normal, checkDecimal (some 2) (.str " -7.5 ") = .ok normal →
      ∃ decimal : DecimalNumeral, normal = .str decimal.text ∧ decimal.fraction.length = 2 ∧
        ∀ number, (Data.str " -7.5 ").Denotes number ↔ number = decimal.value := by
  have htext : (Data.str " -7.5 ").spelling? = some "-7.5" := by decide +kernel
  obtain ⟨-, -, haccepted, hnormal⟩ := checkDecimal_scale 2 (.str " -7.5 ") "-7.5" htext
  have hseven : ∀ c ∈ ['7'], c.isDigit = true := List.forall_mem_singleton.mpr rfl
  have hfive : ∀ c ∈ ['5'], c.isDigit = true := List.forall_mem_singleton.mpr rfl
  obtain ⟨hpassed, hascii⟩ :=
    haccepted.mp ⟨⟨true, ['7'], ['5'], List.cons_ne_nil _ _, hseven, hfive⟩, rfl, Nat.le_succ 1⟩
  exact ⟨htext, hpassed, fun normal h => hnormal normal h hascii⟩

/-- With an Arabic digit after the point, one place counts as two: the text is let pass, and is not
filled up. -/
theorem not_decimal_of_checkDecimal_arabic :
    ¬∀ (scale : Nat) (value : Data) (text : String), value.spelling? = some text →
      ((∃ normal, checkDecimal (some scale) value = .ok normal) ↔
        ∃ decimal : DecimalNumeral, decimal.text = text ∧ decimal.fraction.length ≤ scale) ∧
      ∀ normal, checkDecimal (some scale) value = .ok normal →
        ∃ decimal : DecimalNumeral, normal = .str decimal.text ∧ decimal.fraction.length = scale ∧
          ∀ number, value.Denotes number ↔ number = decimal.value := by
  intro h
  have hspelling : (Data.str "1.٣").spelling? = some "1.٣" := by decide +kernel
  have hpassed : ∃ normal, checkDecimal (some 2) (.str "1.٣") = .ok normal := by
    rw [checkDecimal_of_spelling? hspelling]
    exact ⟨_, checkDecimalText_scale_eq_ok_iff.mpr ⟨['٣'], by decide +kernel, by decide, rfl⟩⟩
  obtain ⟨decimal, htext, -⟩ := (h 2 (.str "1.٣") "1.٣" hspelling).1.mp hpassed
  have hascii := hasAsciiDigits_chars decimal
  have hchars : decimal.chars = "1.٣".toList := by rw [← htext, DecimalNumeral.text, String.toList_ofList]
  rw [hchars] at hascii
  exact absurd (hascii '٣' (by decide) (by decide)) (by decide)

end Validator

end InvoiceXml
