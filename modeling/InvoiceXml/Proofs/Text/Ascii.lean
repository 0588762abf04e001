import InvoiceXml.Path.Reader

/-!
# Texts of ASCII characters

The bytes of an ASCII text are its characters (`asciiChars_eq`). A long path is read off its bytes
much faster than off its characters, so this is how the paths of the standard profiles are computed.
-/

namespace InvoiceXml.Text

/-- The bytes of a text. -/
def bytes (text : String) : List UInt8 := text.toByteArray.data.toList

/-- Whether all bytes are those of ASCII characters. -/
def isAscii (text : String) : Bool := (bytes text).all (· < 128)

/-- The characters of an ASCII text, one for each byte. -/
def asciiChars (text : String) : List Char := (bytes text).map fun byte => Char.ofNat byte.toNat

theorem bytes_eq (text : String) : bytes text = text.toList.flatMap String.utf8EncodeChar := by
  rw [bytes, ← String.utf8Encode_toList, List.utf8Encode]
  simp

/-- A character is one ASCII byte, or else starts with a byte that is none. -/
theorem map_utf8EncodeChar_of_ascii {c : Char} (h : ∀ byte ∈ String.utf8EncodeChar c, byte < 128) :
    (String.utf8EncodeChar c).map (fun byte => Char.ofNat byte.toNat) = [c] := by
  have hfirst : ∀ n, n < 64 → (String.utf8EncodeChar c).head? ≠ some (UInt8.ofNat (n + 192)) := by
    intro n hn hhead
    have hsmall := h (UInt8.ofNat (n + 192)) (List.mem_of_head? hhead)
    rw [UInt8.lt_iff_toNat_lt, UInt8.toNat_ofNat'] at hsmall
    change (n + 192) % 256 < 128 at hsmall
    omega
  by_cases hascii : c.val.toNat ≤ 0x7f
  · have hcode : String.utf8EncodeChar c = [UInt8.ofNat c.val.toNat] := by
      rw [String.utf8EncodeChar, if_pos hascii]
    have hbyte : (UInt8.ofNat c.val.toNat).toNat = c.toNat := by
      rw [UInt8.toNat_ofNat']
      exact Nat.mod_eq_of_lt (by omega)
    rw [hcode, List.map_singleton, hbyte, Char.ofNat_toNat]
  · exfalso
    by_cases htwo : c.val.toNat ≤ 0x7ff
    · apply hfirst (c.val.toNat / 64 % 0x20) (by omega)
      rw [String.utf8EncodeChar, if_neg hascii, if_pos htwo, List.head?_cons]
    · by_cases hthree : c.val.toNat ≤ 0xffff
      · apply hfirst (c.val.toNat / 4096 % 0x10 + 32) (by omega)
        rw [String.utf8EncodeChar, if_neg hascii, if_neg htwo, if_pos hthree, List.head?_cons]
      · apply hfirst (c.val.toNat / 262144 % 0x08 + 48) (by omega)
        rw [String.utf8EncodeChar, if_neg hascii, if_neg htwo, if_neg hthree, List.head?_cons]

/-- **The characters of an ASCII text are its bytes.** -/
theorem asciiChars_eq {text : String} (h : isAscii text = true) : asciiChars text = text.toList := by
  rw [isAscii, List.all_eq_true] at h
  rw [asciiChars]
  simp only [bytes_eq] at h ⊢
  generalize text.toList = characters at h ⊢
  induction characters with
  | nil => rfl
  | cons c rest ih =>
    rw [List.flatMap_cons] at h ⊢
    have hc : ∀ byte ∈ String.utf8EncodeChar c, byte < 128 := fun byte hbyte =>
      of_decide_eq_true (h byte (List.mem_append_left _ hbyte))
    rw [List.map_append, map_utf8EncodeChar_of_ascii hc,
      ih fun byte hbyte => h byte (List.mem_append_right _ hbyte)]
    rfl

/-- The characters of an ASCII text have small numbers. -/
theorem toNat_lt_of_isAscii {text : String} (h : isAscii text = true) {c : Char} (hc : c ∈ text.toList) :
    c.toNat < 128 := by
  rw [← asciiChars_eq h] at hc
  obtain ⟨byte, hbyte, rfl⟩ := List.mem_map.mp hc
  have hsmall : byte < 128 := of_decide_eq_true (List.all_eq_true.mp h byte hbyte)
  rw [UInt8.lt_iff_toNat_lt] at hsmall
  change byte.toNat < 128 at hsmall
  rw [Char.ofNat, dif_pos (.inl (by omega))]
  exact hsmall

end InvoiceXml.Text
