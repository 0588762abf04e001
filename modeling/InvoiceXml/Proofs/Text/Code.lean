import InvoiceXml.Proofs.Text.Ascii

/-!
# Codes of texts

Each text has a number of its own (`code_injective`). The kernel compares numbers much faster than
texts, so long lists of paths are compared by their codes.

It also computes an argument once more wherever it is used. `withNat` and `withEach` hand numbers on
that are computed already; what they hand on is what they are given (`withNat_eq`, `withEach_eq`).
-/

namespace InvoiceXml.Text

/-- The number of a list of bytes: its digits are one more than the bytes, so that none of them is zero. -/
def codeOfBytes : List UInt8 → Nat
  | [] => 0
  | byte :: rest => byte.toNat + 1 + 257 * codeOfBytes rest

/-- The number of a text. -/
def code (text : String) : Nat := codeOfBytes (bytes text)

theorem codeOfBytes_injective :
    ∀ {first second : List UInt8}, codeOfBytes first = codeOfBytes second → first = second
  | [], [], _ => rfl
  | [], _ :: _, h | _ :: _, [], h => by
    simp only [codeOfBytes] at h
    omega
  | byte :: rest, other :: others, h => by
    simp only [codeOfBytes] at h
    have hbyte := byte.toNat_lt
    have hother := other.toNat_lt
    have hhead : byte = other := UInt8.toNat_inj.mp (by omega)
    have hrest : codeOfBytes rest = codeOfBytes others := by omega
    rw [hhead, codeOfBytes_injective hrest]

theorem code_injective {first second : String} (h : code first = code second) : first = second := by
  have hbytes : bytes first = bytes second := codeOfBytes_injective h
  exact String.toByteArray_inj.mp (ByteArray.ext (Array.toList_inj.mp hbytes))

/-- A continuation at a number that is computed first. -/
def withNat {β : Type} : Nat → (Nat → β) → β
  | 0, next => next 0
  | n + 1, next => next (Nat.succ n)

/-- A continuation at a list whose items are computed first, in the way that is given. -/
def withEach {α β : Type} (withItem : α → (α → β) → β) : List α → (List α → β) → β
  | [], next => next []
  | item :: rest, next => withItem item fun item => withEach withItem rest fun rest => next (item :: rest)

theorem withNat_eq {β : Type} (n : Nat) (next : Nat → β) : withNat n next = next n := by
  cases n <;> rfl

theorem withEach_eq {α β : Type} {withItem : α → (α → β) → β}
    (h : ∀ item next, withItem item next = next item) (items : List α) (next : List α → β) :
    withEach withItem items next = next items := by
  induction items generalizing next with
  | nil => rfl
  | cons item rest ih => rw [withEach, h, ih]

end InvoiceXml.Text
