import DiceTome.Decimal.Shortest

/-!
# Decimal text

Three ways to write a floating-point number, all with its shortest digits: the plain form of
messages and listings, the form that source text reads back, and the rounded form shown to a
player.
-/

namespace DiceTome.Decimal

/-- The decisions of a written form: which decimal exponents are written out positionally, and the
words for the numbers that are not finite. -/
structure Layout where
  positional : Int → Bool
  infinity : String
  notANumber : String

/-- Powers of ten from `10 ^ -4` up to `10 ^ 15` are written out, others get an exponent. -/
def Layout.plain : Layout where
  positional e := -4 ≤ e && e < 16
  infinity := "inf"
  notANumber := "nan"

/-- Source text knows no exponents. -/
def Layout.source : Layout where
  positional _ := true
  infinity := "Infinity.0"
  notANumber := "NaN.0"

/-- Decimal digits with a point, at least one digit on either side of it. -/
def positionalDigits (ds : List Char) (point : Int) : List Char :=
  if point ≤ 0 then
    '0' :: '.' :: List.replicate (-point).toNat '0' ++ ds
  else if ds.length ≤ point.toNat then
    ds ++ List.replicate (point.toNat - ds.length) '0' ++ ['.', '0']
  else
    ds.take point.toNat ++ '.' :: ds.drop point.toNat

/-- Decimal digits with one digit before the point and an exponent of at least two digits. -/
def exponentDigits (ds : List Char) (exponent : Int) : List Char :=
  let fraction := if ds.length ≤ 1 then [] else '.' :: ds.drop 1
  let power := Nat.toDigits 10 exponent.natAbs
  ds.take 1 ++ fraction ++ ['e', if exponent < 0 then '-' else '+'] ++
    List.replicate (2 - power.length) '0' ++ power

/-- The absolute value of a finite number in the given layout. -/
def Layout.finite (l : Layout) (d : Dyadic) : List Char :=
  if d.significand = 0 then ['0', '.', '0']
  else
    let short := shortest d.significand d.exponent
    let ds := Nat.toDigits 10 short.digits
    if l.positional (short.point - 1) then positionalDigits ds short.point
    else exponentDigits ds (short.point - 1)

/-- A number in the given layout. -/
def Layout.write (l : Layout) (x : Float) : String :=
  match Dyadic.ofFloat? x with
  | some d => String.ofList ((if d.negative then ['-'] else []) ++ l.finite d)
  | none =>
    if x.isNaN then l.notANumber
    else if x < 0 then "-" ++ l.infinity else l.infinity

/-- The plain form: the shortest digits that read back. -/
def plain (x : Float) : String :=
  Layout.plain.write x

/-- The form that source text reads back: positional, with a point. -/
def source (x : Float) : String :=
  Layout.source.write x

/-- The number rounded to two decimal places, a tie of the exact value going to the even digit. -/
def roundToCents (d : Dyadic) : Float :=
  let (num, den) := d.ratio
  nearest d.negative (roundDiv (num * 100) den) 100

/-- The form shown to a player: two places, and an integral number without a point. -/
def display (x : Float) : String :=
  match Dyadic.ofFloat? x with
  | none => plain x
  | some d =>
    let y := roundToCents d
    match Dyadic.ofFloat? y with
    | some e => if e.isIntegral then toString e.truncate else plain y
    | none => plain y

end DiceTome.Decimal
