/-!
# Ranges of code points

Character classes beyond the first 128 characters are given as lists of closed ranges.
-/

namespace DiceTome.Text

/-- Closed ranges of code points, lower end first. -/
abbrev Ranges := List (Nat × Nat)

/-- Whether a character lies in one of the ranges. -/
def Ranges.has (table : Ranges) (c : Char) : Bool :=
  table.any fun r => r.1 ≤ c.toNat && c.toNat ≤ r.2

end DiceTome.Text
