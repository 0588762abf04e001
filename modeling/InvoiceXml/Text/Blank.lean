import InvoiceXml.Text.Range

/-!
# White space

The Unicode property White_Space, and texts with it cut away at the front (`trimStart`) or at both ends
(`trim`).
-/

namespace InvoiceXml.Text

/-- The ranges of the property White_Space. -/
def blankRanges : Ranges :=
  [(0x9, 0xd), (0x20, 0x20), (0x85, 0x85), (0xa0, 0xa0), (0x1680, 0x1680), (0x2000, 0x200a),
   (0x2028, 0x2029), (0x202f, 0x202f), (0x205f, 0x205f), (0x3000, 0x3000)]

/-- A white space character. -/
def isBlank (c : Char) : Bool :=
  inRanges blankRanges c.toNat

/-- The text from its first character that is not blank. -/
def trimStart (cs : List Char) : List Char :=
  cs.dropWhile isBlank

/-- The text without its blank ends. -/
def trim (cs : List Char) : List Char :=
  (trimStart (trimStart cs).reverse).reverse

/-- The text of a string without its blank ends. -/
def trimmed (s : String) : String :=
  String.ofList (trim s.toList)

example : trimmed " \t7\n" = "7" := by decide

end InvoiceXml.Text
