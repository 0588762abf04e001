import InvoiceXml.Text.Printable
import InvoiceXml.Text.Split

/-!
# Quoted texts

A text between double quotes, in which a quote, a backslash and the characters that do not show are written
as escapes: the usual five by a letter, all others by their code point in braces.
-/

namespace InvoiceXml.Text

/-- Lower case hexadecimal digits, without leading zeros. -/
def hexDigits (n : Nat) : List Char := Nat.toDigits 16 n

/-- A character as it stands between quotes. -/
def quotedChar (c : Char) : List Char :=
  if c = '"' then ['\\', '"']
  else if c = '\\' then ['\\', '\\']
  else if c = '\n' then ['\\', 'n']
  else if c = '\r' then ['\\', 'r']
  else if c = '\t' then ['\\', 't']
  else if c.toNat = 0 then ['\\', '0']
  else if isHidden c then ['\\', 'u', '\x7b'] ++ hexDigits c.toNat ++ ['\x7d']
  else [c]

/-- The text between quotes. -/
def quoted (s : String) : String :=
  String.ofList ('"' :: s.toList.flatMap quotedChar ++ ['"'])

/-- The quoted texts of a list, separated by commas, between square brackets. -/
def quotedList (items : List String) : String :=
  "[" ++ joined ", " (items.map quoted) ++ "]"

example : quoted "a\"b\n" = "\"a\\\"b\\n\"" := by decide +kernel
example : quotedList ["a", "b"] = "[\"a\", \"b\"]" := by decide +kernel

end InvoiceXml.Text
