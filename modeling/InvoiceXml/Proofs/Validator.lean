import InvoiceXml.Proofs.Text.Split
import InvoiceXml.Text.Blank
import InvoiceXml.Validator.Standard

/-!
# What the standard validators give

The text of a decimal is an optional minus, digits, and possibly a point and a fraction
(`fractionOf?_eq_some_iff`). With a scale the fraction is filled up with zeros
(`checkDecimalText_scale_eq_ok_iff`), which makes it as large as the scale, so it is not filled up
again.

A validator is stable (`Validator.IsStable`) when what it gives is not null and is let pass as it
is.

* **`Settles.isStable`**: texts, decimals, truth values and codes of a list have stable validators.
-/

namespace InvoiceXml

namespace Text

/-- Two properties of characters exclude each other when no ranges of theirs overlap. -/
theorem inRanges_eq_false {ranges others : Ranges} {code : Nat} (h : inRanges ranges code = true)
    (hdisjoint : ∀ range ∈ ranges, ∀ other ∈ others, range.2 < other.1 ∨ other.2 < range.1) :
    inRanges others code = false := by
  obtain ⟨range, hrange, hfirst, hlast⟩ := (inRanges_iff ranges code).mp h
  rw [← Bool.not_eq_true, inRanges_iff]
  rintro ⟨other, hother, hotherFirst, hotherLast⟩
  have hapart := hdisjoint range hrange other hother
  omega

theorem isBlank_of_isDecimalDigit {c : Char} (h : isDecimalDigit c = true) : isBlank c = false :=
  inRanges_eq_false h (by decide +kernel)

theorem trimStart_eq_self {cs : List Char} (h : ∀ c ∈ cs, isBlank c = false) : trimStart cs = cs := by
  cases cs with
  | nil => rfl
  | cons c rest => rw [trimStart, List.dropWhile_cons_of_neg (by simp [h c List.mem_cons_self])]

theorem trim_eq_self {cs : List Char} (h : ∀ c ∈ cs, isBlank c = false) : trim cs = cs := by
  rw [trim, trimStart_eq_self h, trimStart_eq_self fun c hc => h c (List.mem_reverse.mp hc),
    List.reverse_reverse]

end Text

namespace Validator

open Text (isBlank isDecimalDigit)

variable {cs fraction : List Char} {scale : Nat} {text : String} {value normal : Data}

/-! ### The text of a decimal -/

/-- A fraction with the point before it; there is no point without one. -/
def pointed : List Char → List Char
  | [] => []
  | fraction => '.' :: fraction

theorem mem_pointed_of_mem {c : Char} (hc : c ∈ fraction) : c ∈ pointed fraction := by
  cases fraction with
  | nil => cases hc
  | cons d rest => exact List.mem_cons_of_mem '.' hc

theorem eq_point_or_mem_of_mem_pointed {c : Char} (hc : c ∈ pointed fraction) : c = '.' ∨ c ∈ fraction := by
  cases fraction with
  | nil => cases hc
  | cons d rest => exact List.mem_cons.mp hc

theorem isDigits_iff : isDigits cs = true ↔ cs ≠ [] ∧ ∀ c ∈ cs, isDecimalDigit c = true := by
  simp [isDigits]

theorem not_mem_of_isDigits {c : Char} (h : isDigits cs = true) (hc : isDecimalDigit c = false) : c ∉ cs := by
  intro hmem
  rw [(isDigits_iff.mp h).2 c hmem] at hc
  cases hc

/-- The fraction of a decimal without a minus. -/
def unsignedFraction? (cs : List Char) : Option (List Char) :=
  match Text.cutAtFirst '.' cs with
  | none => if isDigits cs then some [] else none
  | some (whole, fraction) => if isDigits whole && isDigits fraction then some fraction else none

theorem unsignedFraction?_eq_some_iff :
    unsignedFraction? cs = some fraction ↔ ∃ whole, cs = whole ++ pointed fraction ∧ isDigits whole = true ∧
      ∀ c ∈ fraction, isDecimalDigit c = true := by
  rw [unsignedFraction?]
  constructor
  · split
    · rintro h
      obtain ⟨hdigits, rfl⟩ : isDigits cs = true ∧ [] = fraction := by simpa using h
      exact ⟨cs, by simp [pointed], hdigits, by simp⟩
    · rename_i whole found hcut
      intro h
      obtain ⟨⟨hwhole, hfound⟩, rfl⟩ : (isDigits whole = true ∧ isDigits found = true) ∧
          found = fraction := by
        simpa using h
      obtain ⟨hsome, hdigits⟩ := isDigits_iff.mp hfound
      obtain ⟨rfl, -⟩ := Text.cutAtFirst_eq_some_iff.mp hcut
      refine ⟨whole, ?_, hwhole, hdigits⟩
      cases found with
      | nil => exact absurd rfl hsome
      | cons c rest => rfl
  · rintro ⟨whole, rfl, hwhole, hdigits⟩
    have hpoint : '.' ∉ whole := not_mem_of_isDigits hwhole (by decide)
    cases fraction with
    | nil =>
      rw [pointed, List.append_nil, Text.cutAtFirst_eq_none_iff.mpr hpoint]
      exact if_pos hwhole
    | cons c rest =>
      rw [pointed, Text.cutAtFirst_eq_some_iff.mpr ⟨rfl, hpoint⟩]
      exact if_pos (by simp [hwhole, isDigits_iff.mpr ⟨List.cons_ne_nil c rest, hdigits⟩])
      simp

theorem fractionOf?_minus (cs : List Char) : fractionOf? ('-' :: cs) = unsignedFraction? cs := rfl

theorem fractionOf?_of_ne (h : ∀ rest, cs ≠ '-' :: rest) : fractionOf? cs = unsignedFraction? cs := by
  rw [fractionOf?]
  · rfl
  · exact h

/-- **The text of a decimal.** It has an optional minus, digits, and possibly a point and a fraction
of digits. -/
theorem fractionOf?_eq_some_iff :
    fractionOf? cs = some fraction ↔ ∃ sign whole, cs = sign ++ whole ++ pointed fraction ∧
      (sign = [] ∨ sign = ['-']) ∧ isDigits whole = true ∧ ∀ c ∈ fraction, isDecimalDigit c = true := by
  constructor
  · intro h
    by_cases hminus : ∃ rest, cs = '-' :: rest
    · obtain ⟨rest, rfl⟩ := hminus
      rw [fractionOf?_minus] at h
      obtain ⟨whole, rfl, hwhole, hdigits⟩ := unsignedFraction?_eq_some_iff.mp h
      exact ⟨['-'], whole, rfl, .inr rfl, hwhole, hdigits⟩
    · rw [fractionOf?_of_ne fun rest heq => hminus ⟨rest, heq⟩] at h
      obtain ⟨whole, rfl, hwhole, hdigits⟩ := unsignedFraction?_eq_some_iff.mp h
      exact ⟨[], whole, rfl, .inl rfl, hwhole, hdigits⟩
  · rintro ⟨sign, whole, rfl, hsign, hwhole, hdigits⟩
    have hunsigned := unsignedFraction?_eq_some_iff.mpr ⟨whole, rfl, hwhole, hdigits⟩
    rcases hsign with rfl | rfl
    · -- the first character is a digit
      rw [List.nil_append, fractionOf?_of_ne, hunsigned]
      intro rest heq
      cases whole with
      | nil => exact (isDigits_iff.mp hwhole).1 rfl
      | cons c others =>
        obtain ⟨rfl, -⟩ := List.cons.inj heq
        exact not_mem_of_isDigits hwhole (by decide) List.mem_cons_self
    · exact hunsigned

/-- No character of a decimal is blank. -/
theorem isBlank_eq_false_of_fractionOf? (h : fractionOf? cs = some fraction) {c : Char} (hc : c ∈ cs) :
    isBlank c = false := by
  obtain ⟨sign, whole, rfl, hsign, hwhole, hdigits⟩ := fractionOf?_eq_some_iff.mp h
  rcases List.mem_append.mp hc with hc | hc
  · rcases List.mem_append.mp hc with hc | hc
    · rcases hsign with rfl | rfl
      · cases hc
      · obtain rfl := List.mem_singleton.mp hc
        decide
    · exact Text.isBlank_of_isDecimalDigit ((isDigits_iff.mp hwhole).2 c hc)
  · rcases eq_point_or_mem_of_mem_pointed hc with rfl | hc
    · decide
    · exact Text.isBlank_of_isDecimalDigit (hdigits c hc)

/-! ### Filling up a fraction -/

theorem byteSize_cons (c : Char) (rest : List Char) : byteSize (c :: rest) = c.utf8Size + byteSize rest := by
  have hfold : ∀ (rest : List Char) (size : Nat),
      rest.foldl (fun size c => size + c.utf8Size) size = size + byteSize rest := by
    intro rest
    induction rest with
    | nil => intro size; rfl
    | cons d others ih =>
      intro size
      rw [byteSize, List.foldl_cons, List.foldl_cons, ih, ih]
      omega
  rw [byteSize, List.foldl_cons, hfold, Nat.zero_add]

theorem byteSize_append (first second : List Char) :
    byteSize (first ++ second) = byteSize first + byteSize second := by
  induction first with
  | nil => simp [byteSize]
  | cons c rest ih => rw [List.cons_append, byteSize_cons, byteSize_cons, ih, Nat.add_assoc]

theorem byteSize_zeros (count : Nat) : byteSize (List.replicate count '0') = count := by
  induction count with
  | zero => rfl
  | succ count ih =>
    have hzero : '0'.utf8Size = 1 := by decide
    rw [List.replicate_succ, byteSize_cons, ih, hzero, Nat.add_comm]

theorem byteSize_eq_zero_iff : byteSize cs = 0 ↔ cs = [] := by
  cases cs with
  | nil => simp [byteSize]
  | cons c rest =>
    have hpos := c.utf8Size_pos
    simp only [byteSize_cons, List.cons_ne_nil, iff_false]
    omega

/-- What fills a fraction up to a scale: zeros, after a point if there is no fraction yet. -/
def filling (scale : Nat) (fraction : List Char) : List Char :=
  (if byteSize fraction = 0 ∧ 0 < scale then ['.'] else []) ++ List.replicate (scale - byteSize fraction) '0'

/-- A fraction as large as the scale is not filled. -/
theorem filling_eq_nil (h : byteSize fraction = scale) : filling scale fraction = [] := by
  have hno : ¬(byteSize fraction = 0 ∧ 0 < scale) := by omega
  rw [filling, if_neg hno, h, Nat.sub_self]
  rfl

/-- What is filled up has the fraction with the zeros. -/
theorem pointed_append_filling (scale : Nat) (fraction : List Char) :
    pointed fraction ++ filling scale fraction =
      pointed (fraction ++ List.replicate (scale - byteSize fraction) '0') := by
  cases fraction with
  | nil =>
    have hsizeNil : byteSize [] = 0 := rfl
    cases scale with
    | zero => rfl
    | succ scale => simp [filling, pointed, hsizeNil, List.replicate_succ]
  | cons c rest =>
    have hpos : byteSize (c :: rest) ≠ 0 :=
      fun hzero => List.cons_ne_nil c rest (byteSize_eq_zero_iff.mp hzero)
    simp [filling, pointed, hpos]

theorem fractionOf?_append_filling (h : fractionOf? cs = some fraction) (scale : Nat) :
    fractionOf? (cs ++ filling scale fraction) =
      some (fraction ++ List.replicate (scale - byteSize fraction) '0') := by
  obtain ⟨sign, whole, rfl, hsign, hwhole, hdigits⟩ := fractionOf?_eq_some_iff.mp h
  refine fractionOf?_eq_some_iff.mpr ⟨sign, whole, ?_, hsign, hwhole, fun c hc => ?_⟩
  · rw [List.append_assoc, pointed_append_filling]
  · rcases List.mem_append.mp hc with hc | hc
    · exact hdigits c hc
    · obtain rfl := List.eq_of_mem_replicate hc
      decide

/-! ### What the validators give -/

theorem check_decimal (identity : String) (scale : Option Nat) :
    (decimal identity scale).check = checkDecimal scale := rfl

theorem check_code (identity : String) (list : CodeList) : (code identity list).check = checkCode list := rfl

/-- A text that is let pass stays as it is. -/
theorem checkText_eq_ok {limits : TextLimits} (h : checkText limits value = .ok normal) :
    ∃ s, value = .str s ∧ normal = .str s := by
  cases value with
  | str s =>
    rw [checkText] at h
    split at h
    · exact ⟨s, rfl, (Except.ok.inj h).symm⟩
    · cases h
  | null | bool _ | num _ | arr _ | obj _ => cases h

theorem checkDecimalText_none_eq_ok_iff :
    checkDecimalText none text = .ok normal ↔
      (∃ fraction, fractionOf? text.toList = some fraction) ∧ normal = .str text := by
  rw [checkDecimalText]
  cases fractionOf? text.toList <;> simp [eq_comm]

/-- A decimal that is let pass with a scale is filled up. -/
theorem checkDecimalText_scale_eq_ok_iff :
    checkDecimalText (some scale) text = .ok normal ↔ ∃ fraction, fractionOf? text.toList = some fraction ∧
      byteSize fraction ≤ scale ∧ normal = .str (String.ofList (text.toList ++ filling scale fraction)) := by
  rw [checkDecimalText]
  cases fractionOf? text.toList with
  | none => simp
  | some fraction =>
    by_cases hlarge : scale < byteSize fraction
    · have hnot : ¬byteSize fraction ≤ scale := Nat.not_le.mpr hlarge
      simp [hlarge, hnot]
    · have hle : byteSize fraction ≤ scale := Nat.not_lt.mp hlarge
      simp [hlarge, hle, filling, eq_comm]

/-- A decimal that is let pass is the text of one, filled up already. -/
theorem checkDecimalText_of_checkDecimal {scale : Option Nat} (h : checkDecimal scale value = .ok normal) :
    ∃ text fraction, normal = .str text ∧ fractionOf? text.toList = some fraction ∧
      checkDecimalText scale text = .ok (.str text) := by
  have htext : ∀ text, checkDecimalText scale text = .ok normal → ∃ text fraction, normal = .str text ∧
      fractionOf? text.toList = some fraction ∧ checkDecimalText scale text = .ok (.str text) := by
    intro text h
    cases scale with
    | none =>
      obtain ⟨⟨fraction, hfraction⟩, rfl⟩ := checkDecimalText_none_eq_ok_iff.mp h
      exact ⟨text, fraction, rfl, hfraction, h⟩
    | some scale =>
      obtain ⟨fraction, hfraction, hsize, rfl⟩ := checkDecimalText_scale_eq_ok_iff.mp h
      have hfilled := fractionOf?_append_filling hfraction scale
      have hfull : byteSize (fraction ++ List.replicate (scale - byteSize fraction) '0') = scale := by
        rw [byteSize_append, byteSize_zeros]
        omega
      rw [← String.toList_ofList (l := text.toList ++ _)] at hfilled
      refine ⟨_, _, rfl, hfilled, checkDecimalText_scale_eq_ok_iff.mpr ⟨_, hfilled, Nat.le_of_eq hfull, ?_⟩⟩
      rw [filling_eq_nil hfull, List.append_nil, String.ofList_toList]
  cases value with
  | str s | num n =>
    rw [checkDecimal] at h
    exact htext _ h
  | null | bool _ | arr _ | obj _ => cases h

/-- A decimal that is let pass becomes a text. -/
theorem exists_str_of_checkDecimal {scale : Option Nat} (h : checkDecimal scale value = .ok normal) :
    ∃ text, normal = .str text := by
  obtain ⟨text, -, rfl, -⟩ := checkDecimalText_of_checkDecimal h
  exact ⟨text, rfl⟩

/-- A truth value that is let pass becomes one. -/
theorem exists_bool_of_checkBoolean (h : checkBoolean value = .ok normal) : ∃ b, normal = .bool b := by
  cases value with
  | bool b => exact ⟨b, (Except.ok.inj h).symm⟩
  | str s =>
    rw [checkBoolean] at h
    split at h
    · exact ⟨true, (Except.ok.inj h).symm⟩
    · split at h
      · exact ⟨false, (Except.ok.inj h).symm⟩
      · cases h
  | null | num _ | arr _ | obj _ => cases h

/-- The canonical spelling of a code is its own. -/
theorem canonical?_of_canonical? {list : CodeList} {code canonical : String}
    (h : list.canonical? code = some canonical) : list.canonical? canonical = some canonical := by
  rw [CodeList.canonical?] at h ⊢
  split
  · rename_i hcase
    rw [if_pos hcase] at h
    split at h
    · obtain rfl := Option.some.inj h
      exact if_pos ‹_›
    · cases h
  · rename_i hcase
    rw [if_neg hcase] at h
    -- what differs from the one in case only differs so from the other
    have hsame : CodeList.sameButCase canonical = CodeList.sameButCase code := by
      have heq : code.toList.map Char.toLower = canonical.toList.map Char.toLower := by
        simpa [CodeList.sameButCase] using List.find?_some h
      funext other
      rw [CodeList.sameButCase, CodeList.sameButCase, heq]
    rw [hsame, h]

/-- A code that is let pass becomes a canonical spelling. -/
theorem checkCode_eq_ok {list : CodeList} (h : checkCode list value = .ok normal) :
    ∃ canonical, list.canonical? canonical = some canonical ∧ normal = .str canonical := by
  cases value with
  | str code =>
    rw [checkCode] at h
    split at h
    · rename_i canonical hcanonical
      exact ⟨canonical, canonical?_of_canonical? hcanonical, (Except.ok.inj h).symm⟩
    · cases h
  | null | bool _ | num _ | arr _ | obj _ => cases h

/-! ### Stable validators -/

/-- Whether what a validator gives is never null, and is let pass as it is. -/
structure IsStable (validator : Validator) : Prop where
  nonNull : ∀ value normal, validator.check value = .ok normal → normal.isNull = false
  fixed : ∀ value normal, validator.check value = .ok normal → validator.check normal = .ok normal

/-- Texts, decimals, truth values, codes of a list, and whatever else is checked by a stable validator. -/
inductive Settles : Validator → Prop
  | text (identity : String) (limits : TextLimits) : Settles (.text identity limits)
  | decimal (identity : String) (scale : Option Nat) : Settles (.decimal identity scale)
  | boolean (identity : String) : Settles (.boolean identity)
  | code (identity : String) (list : CodeList) : Settles (.code identity list)
  | stable {validator : Validator} (stable : validator.IsStable) : Settles validator

theorem isStable_text (identity : String) (limits : TextLimits) :
    (Validator.text identity limits).IsStable where
  nonNull := by
    intro value normal h
    obtain ⟨s, -, rfl⟩ := checkText_eq_ok h
    rfl
  fixed := by
    intro value normal h
    obtain ⟨s, rfl, rfl⟩ := checkText_eq_ok h
    exact h

theorem isStable_decimal (identity : String) (scale : Option Nat) : (decimal identity scale).IsStable where
  nonNull := by
    intro value normal h
    obtain ⟨text, -, rfl, -⟩ := checkDecimalText_of_checkDecimal h
    rfl
  fixed := by
    intro value normal h
    obtain ⟨text, fraction, rfl, hfraction, hfixed⟩ := checkDecimalText_of_checkDecimal h
    have htrimmed : Text.trimmed text = text := by
      rw [Text.trimmed, Text.trim_eq_self fun c hc => isBlank_eq_false_of_fractionOf? hfraction hc,
        String.ofList_toList]
    rw [check_decimal, checkDecimal, htrimmed, hfixed]

theorem isStable_boolean (identity : String) : (boolean identity).IsStable where
  nonNull := by
    intro value normal h
    obtain ⟨b, rfl⟩ := exists_bool_of_checkBoolean h
    rfl
  fixed := by
    intro value normal h
    obtain ⟨b, rfl⟩ := exists_bool_of_checkBoolean h
    rfl

theorem isStable_code (identity : String) (list : CodeList) : (code identity list).IsStable where
  nonNull := by
    intro value normal h
    obtain ⟨canonical, -, rfl⟩ := checkCode_eq_ok h
    rfl
  fixed := by
    intro value normal h
    obtain ⟨canonical, hcanonical, rfl⟩ := checkCode_eq_ok h
    rw [check_code, checkCode, hcanonical]

/-- **The standard validators are stable.** -/
theorem Settles.isStable {validator : Validator} (h : validator.Settles) : validator.IsStable := by
  cases h with
  | text identity limits => exact isStable_text identity limits
  | decimal identity scale => exact isStable_decimal identity scale
  | boolean identity => exact isStable_boolean identity
  | code identity list => exact isStable_code identity list
  | stable h => exact h

end Validator

end InvoiceXml
