/-!
# Floating-point numbers as exact dyadic numbers

A finite floating-point number is a sign, a significand and a power of two. All conversions
between floating-point numbers, integers and decimal text go through this form and exact
arithmetic on natural numbers.

* `Dyadic.ofFloat?` decodes a finite number.
* `nearest` encodes the floating-point number nearest to a quotient, ties to the even significand.
-/

namespace DiceTome.Decimal

/-- The number `± significand · 2 ^ exponent`. -/
structure Dyadic where
  negative : Bool
  significand : Nat
  exponent : Int
  deriving Repr, DecidableEq

namespace Dyadic

/-- The exact value of a finite number, decoded from its bits; `none` for an infinity and for a
number that is not one. -/
def ofBits? (bits : Nat) : Option Dyadic :=
  let negative := bits / Nat.pow 2 63 % 2 == 1
  let biased : Nat := bits / Nat.pow 2 52 % Nat.pow 2 11
  let fraction : Nat := bits % Nat.pow 2 52
  if biased = 2047 then none
  else if biased = 0 then some ⟨negative, fraction, -1074⟩
  else some ⟨negative, fraction + Nat.pow 2 52, (biased : Int) - 1075⟩

/-- The exact value of a finite floating-point number. -/
def ofFloat? (x : Float) : Option Dyadic :=
  ofBits? x.toBits.toNat

/-- The absolute value as a quotient of natural numbers. -/
def ratio (d : Dyadic) : Nat × Nat :=
  if 0 ≤ d.exponent then (d.significand * Nat.pow 2 d.exponent.toNat, 1)
  else (d.significand, Nat.pow 2 (-d.exponent).toNat)

/-- A natural number with the sign of `d`. -/
def withSign (d : Dyadic) (n : Nat) : Int :=
  if d.negative then -(n : Int) else n

/-- The integer part, rounded toward zero. -/
def truncate (d : Dyadic) : Int :=
  let (num, den) := d.ratio
  d.withSign (num / den)

/-- The greatest integer that is not above the value. -/
def floor (d : Dyadic) : Int :=
  let (num, den) := d.ratio
  Int.fdiv (d.withSign num) den

/-- The least integer that is not below the value. -/
def ceil (d : Dyadic) : Int :=
  -Int.fdiv (-d.withSign d.ratio.1) d.ratio.2

/-- The value as a multiple of the smallest positive floating-point number, `2 ^ -1074`. -/
def units (d : Dyadic) : Int :=
  d.withSign (d.significand * Nat.pow 2 (d.exponent + 1074).toNat)

/-- Whether the value is an integer. -/
def isIntegral (d : Dyadic) : Bool :=
  let (num, den) := d.ratio
  num % den == 0

end Dyadic

/-- The natural number nearest to `num / den`; a tie goes to the even one. -/
def roundDiv (num den : Nat) : Nat :=
  let q := num / den
  let r := num % den
  if 2 * r < den then q
  else if den < 2 * r then q + 1
  else if q % 2 = 0 then q else q + 1

/-- The exponent of the last significand bit of the floating-point numbers around `num / den`. -/
def unitExponent (num den : Nat) : Int :=
  let k : Int := (Nat.log2 num : Int) - Nat.log2 den
  let reaches := if 0 ≤ k then den * Nat.pow 2 k.toNat ≤ num else den ≤ num * Nat.pow 2 (-k).toNat
  let e := if reaches then k - 52 else k - 53
  max e (-1074)

/-- The bits of the floating-point number nearest to `± num / den`, ties to the even significand;
an infinity where the quotient is too large. -/
def nearestBits (negative : Bool) (num den : Nat) : Nat :=
  let sign := if negative then Nat.pow 2 63 else 0
  if num = 0 then sign
  else
    let e := unitExponent num den
    let m :=
      if 0 ≤ e then roundDiv num (den * Nat.pow 2 e.toNat)
      else roundDiv (num * Nat.pow 2 (-e).toNat) den
    sign + min ((e + 1074).toNat * Nat.pow 2 52 + m) (2047 * Nat.pow 2 52)

/-- The floating-point number nearest to `± num / den`. -/
def nearest (negative : Bool) (num den : Nat) : Float :=
  Float.ofBits (nearestBits negative num den).toUInt64

/-- The floating-point number nearest to an integer, or `none` if the integer is too large. -/
def ofInt? (n : Int) : Option Float :=
  let x := nearest (n < 0) n.natAbs 1
  if x.isFinite then some x else none

/-- The floating-point number nearest to `whole · 10 ^ -places`, possibly infinite. -/
def ofDigits (whole places : Nat) : Float :=
  nearest false whole (Nat.pow 10 places)

end DiceTome.Decimal
