/-!
# Ranges of code points

A property of characters is given by the closed ranges of code points that have it, in increasing order.
Membership is a scan of the list: a character has the property exactly when one of the ranges holds its
code point (`inRanges_iff`).
-/

namespace InvoiceXml.Text

/-- Closed ranges of code points, first and last included. -/
abbrev Ranges := List (Nat × Nat)

/-- Whether one of the ranges holds the code point. -/
def inRanges (ranges : Ranges) (code : Nat) : Bool :=
  ranges.any fun range => range.1 ≤ code && code ≤ range.2

theorem inRanges_iff (ranges : Ranges) (code : Nat) :
    inRanges ranges code = true ↔ ∃ range ∈ ranges, range.1 ≤ code ∧ code ≤ range.2 := by
  simp [inRanges]

end InvoiceXml.Text
