import DiceTome.Decimal.Text

/-!
# Totals

The sum of some numbers, taken from left to right. The sum of no numbers is kept apart from the
number 0.0: it is written without a point, and its negative is not -0.0.
-/

namespace DiceTome

/-- The sum of some floating-point numbers, or of none. -/
inductive Total where
  | nothing
  | sum (x : Float)
  deriving Repr, BEq

namespace Total

/-- The total as a number; nothing counts as 0.0. -/
def toFloat : Total → Float
  | nothing => 0.0
  | sum x => x

/-- The total of two totals, the first one added first. -/
def add : Total → Total → Total
  | nothing, nothing => nothing
  | a, b => sum (a.toFloat + b.toFloat)

/-- The negative of the total as a number. -/
def negate : Total → Float
  | nothing => 0.0
  | sum x => -x

/-- The total as messages show it. -/
def text : Total → String
  | nothing => "0"
  | sum x => Decimal.plain x

end Total

end DiceTome
