import InvoiceXml.Text.Numeral
import Mathlib.Algebra.Group.Nat.Defs
import Mathlib.Data.List.Basic
import Mathlib.Data.List.Induction

/-!
# Reading and writing numerals

A written number is read as itself (`numeralValue_digits`), and a text of digits is the written form
of the number that it denotes if and only if it has no superfluous zero in front
(`digits_numeralValue_iff`).
-/

namespace InvoiceXml.Text

/-- Whether a numeral has a zero in front of other digits. -/
def IsPadded (cs : List Char) : Prop := cs.head? = some '0' ∧ 1 < cs.length

instance (cs : List Char) : Decidable (IsPadded cs) := inferInstanceAs (Decidable (_ ∧ _))

theorem numeralValue_eq (cs : List Char) : numeralValue cs = Nat.ofDigitChars 10 cs 0 :=
  Nat.ofDigitChars_eq_foldl.symm

/-- **A written number is read as itself.** -/
theorem numeralValue_digits (n : Nat) : numeralValue (digits n) = n := by
  rw [numeralValue_eq, digits, Nat.ofDigitChars_ten_toDigits]

theorem isDigit_of_mem_digits {n : Nat} {c : Char} (h : c ∈ digits n) : c.isDigit = true :=
  Nat.isDigit_of_mem_toDigits (by decide) (by decide) h

theorem digits_ne_nil (n : Nat) : digits n ≠ [] := Nat.toDigits_ne_nil

theorem numeral?_eq_some_iff {cs : List Char} {n : Nat} :
    numeral? cs = some n ↔ cs ≠ [] ∧ (∀ c ∈ cs, c.isDigit = true) ∧ numeralValue cs = n := by
  rw [numeral?]
  cases cs <;> simp [and_assoc]

/-- The value of a digit has this digit as its written form. -/
theorem digits_digitValue {c : Char} (h : c.isDigit = true) :
    digitValue c < 10 ∧ digits (digitValue c) = [c] := by
  obtain ⟨hlow, hhigh⟩ := Char.isDigit_iff_toNat.mp h
  change 48 ≤ c.toNat at hlow
  change c.toNat ≤ 57 at hhigh
  have hlt : digitValue c < 10 := by
    rw [digitValue]
    omega
  have hcode : (digitValue c).digitChar.toNat = c.toNat := by
    rw [Nat.toNat_digitChar_of_lt_ten hlt, digitValue]
    omega
  have hchar : (digitValue c).digitChar = c := by
    rw [← Char.ofNat_toNat (digitValue c).digitChar, hcode, Char.ofNat_toNat]
  exact ⟨hlt, by rw [digits, Nat.toDigits_of_lt_base hlt, hchar]⟩

theorem numeralValue_append_singleton (cs : List Char) (c : Char) :
    numeralValue (cs ++ [c]) = 10 * numeralValue cs + digitValue c := by
  rw [numeralValue, numeralFrom_append]
  rfl

/-- Each zero at the end multiplies by ten. -/
theorem numeralValue_append_zeros (cs : List Char) (count : Nat) :
    numeralValue (cs ++ List.replicate count '0') = numeralValue cs * 10 ^ count := by
  induction count with
  | zero => rw [List.replicate_zero, List.append_nil, Nat.pow_zero, Nat.mul_one]
  | succ count ih =>
    have hzero : digitValue '0' = 0 := by decide
    rw [List.replicate_succ', ← List.append_assoc, numeralValue_append_singleton, ih, hzero, Nat.add_zero,
      Nat.pow_succ, Nat.mul_comm, Nat.mul_assoc]

/-- Zeros in front do not change the number. -/
theorem numeralValue_padLeft (width : Nat) (cs : List Char) :
    numeralValue (padLeft width cs) = numeralValue cs := by
  have hzeros : numeralFrom 0 (List.replicate (width - cs.length) '0') = 0 :=
    (numeralValue_append_zeros [] (width - cs.length)).trans (Nat.zero_mul _)
  rw [numeralValue, padLeft, numeralFrom_append, hzeros, numeralValue]

/-- A digit more behind a number other than zero stands behind its digits. -/
theorem digits_append {n : Nat} (hn : 0 < n) {c : Char} (hc : c.isDigit = true) :
    digits (10 * n + digitValue c) = digits n ++ [c] := by
  obtain ⟨hlt, hdigit⟩ := digits_digitValue hc
  rw [← hdigit]
  exact (Nat.toDigits_append_toDigits (by decide) hn hlt).symm

/-- So many digits stay below a power of ten. -/
theorem numeralValue_lt {cs : List Char} (h : ∀ c ∈ cs, c.isDigit = true) :
    numeralValue cs < 10 ^ cs.length := by
  induction cs using List.reverseRecOn with
  | nil => decide
  | append_singleton cs c ih =>
    have hlt := ih fun d hd => h d (List.mem_append_left _ hd)
    have hdigit := (digits_digitValue (h c (by simp))).1
    rw [numeralValue_append_singleton, List.length_append, List.length_singleton, Nat.pow_succ]
    omega

theorem length_digits_le {n width : Nat} (hwidth : 0 < width) (h : n < 10 ^ width) :
    (digits n).length ≤ width :=
  (Nat.length_toDigits_le_iff (by decide) hwidth).mpr h

/-- No zero is written in front. -/
theorem head?_digits {n : Nat} (hn : 0 < n) : (digits n).head? ≠ some '0' := by
  induction n using Nat.strongRecOn with
  | _ n ih =>
    rcases Nat.lt_or_ge n 10 with hlt | hge
    · rw [digits, Nat.toDigits_of_lt_base hlt, List.head?_cons]
      intro hzero
      exact Nat.pos_iff_ne_zero.mp hn (Nat.digitChar_eq_zero.mp (Option.some.inj hzero))
    · have hfront : (digits (n / 10)).head? ≠ some '0' := ih (n / 10) (by omega) (by omega)
      rw [digits, Nat.toDigits_of_base_le (by decide) hge, List.head?_append_of_ne_nil _ Nat.toDigits_ne_nil]
      exact hfront

/-- A written number has no superfluous zero. -/
theorem not_isPadded_digits (n : Nat) : ¬IsPadded (digits n) := by
  rintro ⟨hzero, hlength⟩
  rcases Nat.eq_zero_or_pos n with rfl | hn
  · exact absurd hlength (by decide)
  · exact head?_digits hn hzero

/-- **Written forms.** Digits are the written form of their number unless they have a superfluous zero. -/
theorem digits_numeralValue_iff {cs : List Char} (hne : cs ≠ []) (hdigits : ∀ c ∈ cs, c.isDigit = true) :
    digits (numeralValue cs) = cs ↔ ¬IsPadded cs := by
  refine ⟨fun h => h ▸ not_isPadded_digits _, fun hplain => ?_⟩
  induction cs using List.reverseRecOn with
  | nil => exact absurd rfl hne
  | append_singleton cs c ih =>
    have hc : c.isDigit = true := hdigits c (by simp)
    rw [numeralValue_append_singleton]
    by_cases hcs : cs = []
    · subst hcs
      simpa [numeralValue, numeralFrom] using (digits_digitValue hc).2
    · -- all but the last digit are not padded either, and so they do not denote zero
      have hhead : cs.head? ≠ some '0' := by
        intro hzero
        apply hplain
        rw [IsPadded, List.head?_append_of_ne_nil _ hcs, List.length_append]
        exact ⟨hzero, Nat.lt_add_of_pos_left (List.length_pos_iff.mpr hcs)⟩
      have hcsDigits := ih hcs (fun d hd => hdigits d (List.mem_append_left _ hd)) fun h => hhead h.1
      have hpos : 0 < numeralValue cs := by
        refine Nat.pos_of_ne_zero fun hzero => hhead ?_
        rw [← hcsDigits, hzero]
        rfl
      rw [digits_append hpos hc, hcsDigits]

end InvoiceXml.Text
