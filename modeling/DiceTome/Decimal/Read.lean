import DiceTome.Decimal.Dyadic

/-!
# Reading decimal text

A number is an optional sign, digits with an optional point, and an optional exponent; the words
for infinities and for what is not a number are read as well. The value is the nearest
floating-point number.
-/

namespace DiceTome.Decimal

/-- The value of a run of ASCII digits. -/
def asciiDigits? (cs : List Char) : Option Nat :=
  if cs.all Char.isDigit then some (cs.foldl (fun n c => 10 * n + (c.toNat - '0'.toNat)) 0)
  else none

/-- The value of a run of at least one ASCII digit. -/
def someDigits? (cs : List Char) : Option Nat :=
  if cs.isEmpty then none else asciiDigits? cs

/-- A sign and what follows it. -/
def splitSign : List Char → Bool × List Char
  | '-' :: cs => (true, cs)
  | '+' :: cs => (false, cs)
  | cs => (false, cs)

/-- The value of digits with an optional sign. -/
def signedDigits? (cs : List Char) : Option Int :=
  let (negative, digits) := splitSign cs
  (someDigits? digits).map fun n => if negative then -(n : Int) else n

/-- The number that a text spells. -/
def read? (s : String) : Option Float := do
  let (negative, cs) := splitSign s.toList
  let body := cs.map Char.toLower
  if body = "inf".toList ∨ body = "infinity".toList then
    return if negative then -(1.0 / 0.0) else 1.0 / 0.0
  if body = "nan".toList then
    return 0.0 / 0.0
  let mantissa := body.takeWhile (· != 'e')
  let exponent ← match body.dropWhile (· != 'e') with
    | [] => some (0 : Int)
    | _ :: digits => signedDigits? digits
  let whole := mantissa.takeWhile (· != '.')
  let fraction := (mantissa.dropWhile (· != '.')).drop 1
  let n ← someDigits? (whole ++ fraction)
  let power := exponent - fraction.length
  return nearest negative (n * Nat.pow 10 power.toNat) (Nat.pow 10 (-power).toNat)

end DiceTome.Decimal
