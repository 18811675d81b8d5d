import DiceTome.Settings.Datum

/-!
# Plain scalars

A plain scalar is a null, a truth value, an integer, a decimal number, a moment or a text, whichever
its spelling fits.

* `Scalar.resolve` reads a plain scalar.
* `Scalar.isText` tells whether a spelling stands for itself.
-/

namespace DiceTome

/-- What is wrong with a scalar whose spelling fits. -/
inductive ScalarError where
  | noDigits (base : Nat)
  | tooManyDigits (count : Nat)
  | moment (cause : MomentError)
  | noSuchCharacter
  deriving Repr, DecidableEq

/-- The text of the error. -/
def ScalarError.message : ScalarError → String
  | noDigits base => s!"invalid literal for int() with base {base}: ''"
  | tooManyDigits count =>
    s!"Exceeds the limit ({Text.maxIntegerDigits} digits) for integer string conversion: " ++
      s!"value has {count} digits; use sys.set_int_max_str_digits() to increase the limit"
  | moment cause => cause.message
  | noSuchCharacter => "chr() arg not in range(0x110000)"

namespace Scalar

/-! ## Integers -/

/-- The digits of a number without the underscores that may set them apart. -/
def withoutUnderscores (cs : List Char) : List Char :=
  cs.filter (· != '_')

/-- The value of a digit up to 16. -/
def hexValue? (c : Char) : Option Nat :=
  if c.isDigit then some (c.toNat - '0'.toNat)
  else if 'a' ≤ c ∧ c ≤ 'f' then some (c.toNat - 'a'.toNat + 10)
  else if 'A' ≤ c ∧ c ≤ 'F' then some (c.toNat - 'A'.toNat + 10)
  else none

/-- Whether a character is a digit in some base, or an underscore. -/
def isDigitIn (base : Nat) (c : Char) : Bool :=
  c == '_' || (hexValue? c).any (· < base)

/-- The value of digits in some base. -/
def valueIn (base : Nat) (digits : List Char) : Nat :=
  digits.foldl (fun n c => n * base + (hexValue? c).getD 0) 0

/-- The parts of a text between colons. -/
def colonParts : List Char → List (List Char)
  | [] => [[]]
  | c :: cs =>
    if c == ':' then [] :: colonParts cs
    else
      match colonParts cs with
      | [] => [[c]]
      | part :: rest => (c :: part) :: rest

/-- Whether a text is a part of a number in base sixty after the first: one or two digits, below
60. -/
def isSixtieth : List Char → Bool
  | [a] => a.isDigit
  | [a, b] => a.isDigit && a ≤ '5' && b.isDigit
  | _ => false

/-- Whether a text is an integer without its sign. -/
def isMagnitude (cs : List Char) : Bool :=
  match cs with
  | [] => false
  | ['0'] => true
  | '0' :: 'b' :: digits => !digits.isEmpty && digits.all (isDigitIn 2)
  | '0' :: 'x' :: digits => !digits.isEmpty && digits.all (isDigitIn 16)
  | '0' :: digits => digits.all (isDigitIn 8)
  | c :: _ =>
    match colonParts cs with
    | first :: rest => c.isDigit && first.all (isDigitIn 10) && rest.all isSixtieth
    | [] => false

/-- Whether a plain scalar is an integer. -/
def isInteger (cs : List Char) : Bool :=
  isMagnitude (Decimal.splitSign cs).2

/-- The value of decimal digits, unless there are too many of them. -/
def decimalValue (digits : List Char) : Except ScalarError Nat :=
  if Text.maxIntegerDigits < digits.length then .error (.tooManyDigits digits.length)
  else .ok (valueIn 10 digits)

/-- The value of digits after a mark for their base, at least one of them. -/
def markedValue (base : Nat) (digits : List Char) : Except ScalarError Nat :=
  if digits.isEmpty then .error (.noDigits base) else .ok (valueIn base digits)

/-- The value of an integer without its sign and without underscores. -/
def magnitude (cs : List Char) : Except ScalarError Nat :=
  match cs with
  | '0' :: 'b' :: digits => markedValue 2 digits
  | '0' :: 'x' :: digits => markedValue 16 digits
  | '0' :: digits => .ok (valueIn 8 digits)
  | cs => (colonParts cs).foldlM (fun n part => do return n * 60 + (← decimalValue part)) 0

/-- The value of an integer. -/
def integer (cs : List Char) : Except ScalarError Int := do
  let (negative, digits) := Decimal.splitSign (withoutUnderscores cs)
  let n ← magnitude digits
  return if negative then -(n : Int) else n

/-! ## Decimal numbers -/

/-- Whether a text is an exponent with its sign, or nothing. -/
def isExponent : List Char → Bool
  | [] => true
  | e :: sign :: digits =>
    (e == 'e' || e == 'E') && (sign == '+' || sign == '-') && !digits.isEmpty &&
      digits.all Char.isDigit
  | _ => false

/-- A digit or an underscore. -/
def isFiller (c : Char) : Bool :=
  isDigitIn 10 c

/-- Whether a text is a decimal number, without its sign, that has no part before its point or one
that starts with a digit. A number without such a part has no sign. -/
def isPointed (signed : Bool) (cs : List Char) : Bool :=
  let whole := cs.takeWhile isFiller
  match cs.dropWhile isFiller with
  | '.' :: rest =>
    let fraction := rest.takeWhile isFiller
    let starts :=
      match whole with
      | [] => fraction.head?.any Char.isDigit && !signed
      | c :: _ => c.isDigit
    starts && isExponent (rest.dropWhile isFiller)
  | _ => false

/-- Whether a text is a number in base sixty, without its sign, whose last part has a point. -/
def isPointedSexagesimal (cs : List Char) : Bool :=
  let isWhole (c : Char) := c != '.'
  match colonParts (cs.takeWhile isWhole), cs.dropWhile isWhole with
  | first :: part :: parts, _ :: fraction =>
    first.head?.any Char.isDigit && first.all isFiller && (part :: parts).all isSixtieth &&
      fraction.all isFiller
  | _, _ => false

/-- The value of a number in base sixty whose last part has a point: the parts are added up from the
last one on. -/
def sexagesimalValue (cs : List Char) : Float :=
  let values := (colonParts cs).map fun part => (Decimal.read? (String.ofList part)).getD 0
  (values.reverse.foldl (fun (sum, unit) x => (sum + x * Float.ofNat unit, 60 * unit))
    ((0 : Float), 1)).1

/-- The decimal number that a plain scalar spells: it has a point, and an exponent has a sign. -/
def decimal? (cs : List Char) : Option Float :=
  let (negative, body) := Decimal.splitSign cs
  let signed := body.length != cs.length
  let isWord (words : List String) := words.any fun w => body = w.toList
  if isWord [".inf", ".Inf", ".INF"] then some (if negative then -(1.0 / 0.0) else 1.0 / 0.0)
  else if !signed && isWord [".nan", ".NaN", ".NAN"] then some (0.0 / 0.0)
  else if isPointed signed body then Decimal.read? (String.ofList (withoutUnderscores cs))
  else if isPointedSexagesimal body then
    let x := sexagesimalValue (withoutUnderscores body)
    some (if negative then -x else x)
  else none

/-! ## All plain scalars -/

/-- Whether a plain scalar is a null. -/
def isNull (s : String) : Bool :=
  ["", "~", "null", "Null", "NULL"].contains s

/-- The truth value that a plain scalar spells. -/
def boolean? (s : String) : Option Bool :=
  let truths := ["yes", "Yes", "YES", "true", "True", "TRUE", "on", "On", "ON"]
  let falsehoods := ["no", "No", "NO", "false", "False", "FALSE", "off", "Off", "OFF"]
  if truths.contains s then some true else if falsehoods.contains s then some false else none

/-- The plain scalars that are set aside for other uses, by the names of these uses. -/
def reserved : List (String × String) :=
  [("=", "value"), ("<<", "merge")]

/-- Whether a plain scalar is a text. -/
def isText (s : String) : Bool :=
  let cs := s.toList
  !isNull s && (boolean? s).isNone && !isInteger cs && (decimal? cs).isNone &&
    (Moment.read? cs).isNone && (reserved.lookup s).isNone

/-- What a plain scalar stands for. -/
def resolve (s : String) : Except ScalarError Datum :=
  let cs := s.toList
  if isNull s then .ok .null
  else if isInteger cs then (integer cs).map .int
  else
    match boolean? s, decimal? cs, Moment.read? cs with
    | some b, _, _ => .ok (.bool b)
    | none, some x, _ => .ok (.float x)
    | none, none, some m => (m.mapError .moment).map .moment
    | none, none, none => .ok (.text s)

end Scalar

end DiceTome
