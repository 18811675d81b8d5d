import DiceTome.Decimal.Text
import DiceTome.Settings.Moment
import DiceTome.Text.Integer
import DiceTome.Text.Quoted

/-!
# Data of a settings document

What a settings document can hold before it is known to be right, and how messages show it.
-/

namespace DiceTome

/-- A piece of data of a settings document. -/
inductive Datum where
  | null
  | bool (b : Bool)
  | int (n : Int)
  | float (x : Float)
  | text (s : String)
  | moment (m : Moment)
  | list (items : List Datum)
  | map (pairs : List (Datum × Datum))
  deriving Repr, Inhabited

namespace Datum

mutual

/-- The datum as messages show it. -/
def shown : Datum → String
  | null => "None"
  | bool b => if b then "True" else "False"
  | int n => toString n
  | float x => Decimal.plain x
  | text s => Text.quoted s
  | moment m => m.shown
  | list items => "[" ++ ", ".intercalate (shownItems items) ++ "]"
  | map pairs => "\x7b" ++ ", ".intercalate (shownPairs pairs) ++ "\x7d"

/-- The items of a list as messages show them. -/
def shownItems : List Datum → List String
  | [] => []
  | d :: ds => d.shown :: shownItems ds

/-- The pairs of a map as messages show them. -/
def shownPairs : List (Datum × Datum) → List String
  | [] => []
  | (key, d) :: pairs => (key.shown ++ ": " ++ d.shown) :: shownPairs pairs

end

/-- The datum as plain text: a text stands for itself. -/
def plainText : Datum → String
  | text s => s
  | moment m => m.text
  | d => d.shown

mutual

/-- Whether messages can show a datum, which they cannot if an integer in it has too many digits. -/
def isShowable : Datum → Bool
  | int n => decide (n.natAbs < Nat.pow 10 Text.maxIntegerDigits)
  | list items => areShowable items
  | map pairs => arePairsShowable pairs
  | _ => true

/-- Whether messages can show the items of a list. -/
def areShowable : List Datum → Bool
  | [] => true
  | d :: ds => d.isShowable && areShowable ds

/-- Whether messages can show the pairs of a map. -/
def arePairsShowable : List (Datum × Datum) → Bool
  | [] => true
  | (key, d) :: pairs => key.isShowable && d.isShowable && arePairsShowable pairs

end

/-- The text of the error that an integer has too many digits to be shown. -/
def notShowable : String :=
  s!"Exceeds the limit ({Text.maxIntegerDigits} digits) for integer string conversion; " ++
    "use sys.set_int_max_str_digits() to increase the limit"

/-- The name of the kind of datum in messages. -/
def kindName : Datum → String
  | null => "NoneType"
  | bool _ => "bool"
  | int _ => "int"
  | float _ => "float"
  | text _ => "str"
  | moment m => m.kindName
  | list _ => "list"
  | map _ => "dict"

/-- The name of the kind of datum, with the name of the family that the kind belongs to. -/
def fullKindName : Datum → String
  | moment m => "datetime." ++ m.kindName
  | d => d.kindName

/-- Whether a whole document with this datum counts as having none. -/
def isVoid : Datum → Bool
  | null => true
  | bool b => !b
  | int n => n == 0
  | float x => x == 0
  | text s => s.isEmpty
  | moment _ => false
  | list items => items.isEmpty
  | map pairs => pairs.isEmpty

/-! ## Keys -/

/-- The multiple of the smallest positive floating-point number that is one. -/
def oneUnits : Int :=
  Nat.pow 2 1074

/-- The place of a datum among all numbers, which truth values are too: below them for one infinity
and above them for the other, else its value in units. -/
def rank? : Datum → Option (Int × Int)
  | bool b => some (0, if b then oneUnits else 0)
  | int n => some (0, n * oneUnits)
  | float x =>
    match Decimal.Dyadic.ofFloat? x with
    | some d => some (0, d.units)
    | none => if x.isNaN then none else some (if x < 0 then -1 else 1, 0)
  | _ => none

/-- Whether a datum is a text. -/
def isText : Datum → Bool
  | text _ => true
  | _ => false

/-- Whether two keys are the same key. -/
def sameKey : Datum → Datum → Bool
  | null, null => true
  | text s, text t => s == t
  | moment m, moment n => m == n
  | int m, int n => m == n
  | a, b =>
    match a.rank?, b.rank? with
    | some x, some y => x == y
    | _, _ => false

/-- Puts a pair into the pairs of a map: the last datum of a key counts. -/
def put (pairs : List (Datum × Datum)) (key d : Datum) : List (Datum × Datum) :=
  if pairs.any (sameKey key ·.1) then
    pairs.map fun p => if sameKey key p.1 then (p.1, d) else p
  else pairs ++ [(key, d)]

/-- Whether a datum is a number, which truth values are too. -/
def isNumber : Datum → Bool
  | bool _ | int _ | float _ => true
  | _ => false

/-- Whether one of two keys can come before the other: both are numbers, or both are of a kind that
has an order. -/
def isComparable : Datum → Datum → Bool
  | text _, text _ => true
  | moment m, moment n => m.clock.isSome == n.clock.isSome
  | a, b => a.isNumber && b.isNumber

/-- Whether a key comes before another one, where both are numbers or both are texts. -/
def precedes : Datum → Datum → Bool
  | text s, text t => decide (s ≤ t)
  | a, b =>
    match a.rank?, b.rank? with
    | some (k, x), some (l, y) => decide (k < l ∨ (k = l ∧ x ≤ y))
    | _, _ => true

/-- The datum of a key in the pairs of a map. -/
def lookup? (pairs : List (Datum × Datum)) (key : String) : Option Datum :=
  (pairs.find? (sameKey (text key) ·.1)).map Prod.snd

end Datum

end DiceTome
