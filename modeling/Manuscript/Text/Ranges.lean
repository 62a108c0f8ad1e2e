/-
# Ranges of characters

A class of characters is given by closed ranges of code points.

Key definitions: `Text.inRanges`.
-/

namespace Manuscript.Text

/-- The character lies in one of the closed ranges. -/
def inRanges (ranges : List (Nat × Nat)) (c : Char) : Bool :=
  ranges.any fun r => r.1 ≤ c.toNat && c.toNat ≤ r.2

end Manuscript.Text
