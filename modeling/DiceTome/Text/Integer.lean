import DiceTome.Text.Blank
import DiceTome.Text.Digit

/-!
# Integers in text

An integer is a sign and decimal digits of any script, with blanks around it. Single underscores may
stand between digits. The separators of records are no blanks here.
-/

namespace DiceTome.Text

/-- The values of digits, at least one of them, with single underscores between them. -/
def groupedDigits? : List Char → Option (List Nat)
  | [] => none
  | [c] => do return [← digitValue? c]
  | c :: '_' :: rest => do return (← digitValue? c) :: (← groupedDigits? rest)
  | c :: rest => do return (← digitValue? c) :: (← groupedDigits? rest)

/-- The most digits that an integer in text may have. -/
def maxIntegerDigits : Nat := 4300

/-- The number that digits spell, unless there are too many of them. -/
def grouped? (cs : List Char) : Option Nat := do
  let digits ← groupedDigits? cs
  if digits.length ≤ maxIntegerDigits then some (digits.foldl (fun n d => 10 * n + d) 0) else none

/-- A character that may stand around an integer. -/
def isMargin (c : Char) : Bool :=
  isBlank c && !(0x1C ≤ c.toNat && c.toNat ≤ 0x1F)

/-- The characters without the margins on either side. -/
def dropMargins (cs : List Char) : List Char :=
  ((cs.dropWhile isMargin).reverse.dropWhile isMargin).reverse

/-- The integer that a text spells. -/
def integer? (cs : List Char) : Option Int :=
  match dropMargins cs with
  | '-' :: digits => (grouped? digits).map fun n => -(n : Int)
  | '+' :: digits => (grouped? digits).map fun n => (n : Int)
  | digits => (grouped? digits).map fun n => (n : Int)

end DiceTome.Text
