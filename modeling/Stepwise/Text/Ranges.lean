/-!
# Character classes as ranges

A class of characters is a list of closed ranges of code points; `inRanges` says whether a
character is in one of them.
-/

namespace Stepwise.Text
set_option autoImplicit false

/-- The code point of the character lies in one of the closed ranges. -/
def inRanges (ranges : List (Nat × Nat)) (c : Char) : Bool :=
  ranges.any fun r => r.1 ≤ c.toNat && c.toNat ≤ r.2

end Stepwise.Text
