/-!
# Indices

What stands in a row is addressed by an index. An index below zero counts from the end.
-/

namespace DiceTome

/-- An index into a row. -/
abbrev Index := Int

/-- The position that an index stands for in a row with `count` places. -/
def Index.position? (count : Nat) : Index → Option Nat
  | .ofNat i => if i < count then some i else none
  | .negSucc i => if i < count then some (count - 1 - i) else none

/-- An index that is not below zero is its own position. -/
@[simp]
theorem Index.position?_natCast (count i : Nat) :
    Index.position? count (i : Int) = if i < count then some i else none := rfl

end DiceTome
