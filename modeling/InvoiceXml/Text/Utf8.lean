/-!
# Bytes as text

Reads a text from its UTF-8 bytes. Where the bytes are no text, the longest start of a character that is
broken off, or else a single byte, is replaced by one replacement character.
-/

namespace InvoiceXml.Text

/-- The replacement character. -/
def replacement : Char := '\ufffd'

/-- The payload of a byte that continues a character, if it lies between two bounds. -/
def payload? (low high : Nat) (byte : UInt8) : Option Nat :=
  if low ≤ byte.toNat ∧ byte.toNat ≤ high then some (byte.toNat % 64) else none

/-- The bounds of the second byte of a character: fewer bytes must not be enough, and the character must be
neither half of a surrogate pair nor too large. -/
def secondBounds (first : Nat) : Nat × Nat :=
  if first = 0xe0 then (0xa0, 0xbf)
  else if first = 0xed then (0x80, 0x9f)
  else if first = 0xf0 then (0x90, 0xbf)
  else if first = 0xf4 then (0x80, 0x8f)
  else (0x80, 0xbf)

/-- How many bytes a character has by its first one; none starts with other bytes. -/
def lengthOf? (first : Nat) : Option Nat :=
  if first < 0x80 then some 1
  else if 0xc2 ≤ first ∧ first ≤ 0xdf then some 2
  else if 0xe0 ≤ first ∧ first ≤ 0xef then some 3
  else if 0xf0 ≤ first ∧ first ≤ 0xf4 then some 4
  else none

/-- Goes on with a character of which `left` bytes are missing and whose payload so far is `value`. -/
def decodeFrom (left value low high : Nat) : List UInt8 → List Char
  | [] => if left = 0 then [] else [replacement]
  | byte :: rest =>
    let start : Unit → List Char := fun _ =>
      let first := byte.toNat
      match lengthOf? first with
      | none => replacement :: decodeFrom 0 0 0 0 rest
      | some 1 => Char.ofNat first :: decodeFrom 0 0 0 0 rest
      | some count =>
        decodeFrom (count - 1) (first % 2 ^ (7 - count)) (secondBounds first).1 (secondBounds first).2 rest
    if left = 0 then start ()
    else match payload? low high byte with
      | none => replacement :: start ()
      | some bits =>
        if left = 1 then Char.ofNat (64 * value + bits) :: decodeFrom 0 0 0 0 rest
        else decodeFrom (left - 1) (64 * value + bits) 0x80 0xbf rest

/-- The text of bytes, with replacements where they are no text. -/
def decodeLossy (bytes : ByteArray) : String := String.ofList (decodeFrom 0 0 0 0 bytes.toList)

example : decodeFrom 0 0 0 0 [0xc3, 0xa9, 0x41, 0xe2, 0x82, 0x41, 0xff, 0xf0, 0x9f, 0x98, 0x80] =
    ['é', 'A', replacement, 'A', replacement, '😀'] := by decide +kernel

end InvoiceXml.Text
