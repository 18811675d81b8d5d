import DiceTome.Decimal.Dyadic

/-!
# Shortest decimal digits

The decimal digits of a finite floating-point number are the fewest that read back as that number,
and of those the nearest. The reals that read back as `m · 2 ^ q` form an interval around it whose
ends belong to it exactly if `m` is even; for one digit, two digits and so on, the two neighbours
of the value on that decimal grid are tested in exact arithmetic.
-/

namespace DiceTome.Decimal

/-- The number `0.d₁d₂… · 10 ^ point`, where the digits are those of `digits`. -/
structure Digits where
  digits : Nat
  point : Int
  deriving Repr, DecidableEq

/-- The interval of reals that round to a significand and exponent, in units of a quarter of the
last significand bit: the lower end, the value, the upper end, and whether the ends belong to it. -/
structure Rounding where
  low : Nat
  value : Nat
  high : Nat
  closed : Bool
  deriving Repr, DecidableEq

/-- The rounding interval of `m · 2 ^ q`. Below a power of two the numbers lie twice as close. -/
def Rounding.of (m : Nat) (q : Int) : Rounding where
  low := if m = Nat.pow 2 52 ∧ -1074 < q then 4 * m - 1 else 4 * m - 2
  value := 4 * m
  high := 4 * m + 2
  closed := m % 2 == 0

/-- `x · 2 ^ e` against the grid point `c · 10 ^ k`, both multiplied by the same power. -/
def onGrid (x : Nat) (e : Int) (k : Int) : Nat × Nat :=
  (x * Nat.pow 2 e.toNat * Nat.pow 10 (-k).toNat, Nat.pow 2 (-e).toNat * Nat.pow 10 k.toNat)

/-- Whether the grid point `c · 10 ^ k` reads back as the number with rounding interval `r` in
units of `2 ^ e`. -/
def Rounding.holds (r : Rounding) (e k : Int) (c : Nat) : Bool :=
  let (low, unit) := onGrid r.low e k
  let (high, _) := onGrid r.high e k
  if r.closed then low ≤ c * unit && c * unit ≤ high else low < c * unit && c * unit < high

/-- The grid point nearest to the value among its two neighbours on the grid of `10 ^ k`, of those
that read back; of two equally near ones the even one. -/
def Rounding.pick? (r : Rounding) (e k : Int) : Option Nat :=
  let (num, unit) := onGrid r.value e k
  let below := num / unit
  let rest := num % unit
  match r.holds e k below, r.holds e k (below + 1) with
  | true, true =>
    if 2 * rest < unit ∨ (2 * rest = unit ∧ below % 2 = 0) then some below else some (below + 1)
  | true, false => some below
  | false, true => some (below + 1)
  | false, false => none

/-- The number of decimal digits of a natural number; zero has none. -/
def digitCount (n : Nat) : Nat :=
  if n = 0 then 0 else (Nat.toDigits 10 n).length

/-- The power of ten that bounds `num / den` from above most closely. -/
def magnitude (num den : Nat) : Int :=
  let k : Int := (digitCount num : Int) - digitCount den
  if num * Nat.pow 10 (-k).toNat < den * Nat.pow 10 k.toNat then k else k + 1

/-- The same number with the zeros at the end of its digits removed. -/
def stripZeros : Nat → Nat → Nat
  | 0, n => n
  | fuel + 1, n => if n % 10 = 0 then stripZeros fuel (n / 10) else n

/-- The shortest digits of `significand · 2 ^ exponent`, which is not zero. -/
def shortest (m : Nat) (q : Int) : Digits :=
  let r := Rounding.of m q
  let e := q - 2
  let (num, den) := onGrid r.value e 0
  let point := magnitude num den
  let found := (List.range' 1 17).findSome? fun n : Nat =>
    (r.pick? e (point - n)).map fun c => (n, c)
  match found with
  | none => ⟨m, point⟩
  | some (n, c) => ⟨stripZeros n c, if c = Nat.pow 10 n then point + 1 else point⟩

end DiceTome.Decimal
