import DiceTome.Roll

/-!
# Values

The values of the language, their conversions and their two text forms: `render` is source text,
`display` is what a player sees. Conversions leave dice alone; `Outcome` throws them first.
-/

namespace DiceTome

/-- A value. A natural may be negative where arithmetic makes it so; `rolls` are faces that a keep
or a sort has picked out of a thrown roll. -/
inductive Value where
  | bool (b : Bool)
  | decimal (x : Float)
  | natural (n : Int)
  | roll (r : Roll)
  | outcome (r : Rolled)
  | rolls (faces : List Int)
  | list (items : List Value)
  | string (s : String)
  | empty
  deriving Repr, Inhabited

namespace Value

def kind : Value → ValueKind
  | bool _ => .bool
  | decimal _ => .decimal
  | natural _ => .natural
  | roll _ => .roll
  | outcome _ => .outcome
  | rolls _ => .rolls
  | list _ => .list
  | string _ => .string
  | empty => .empty

/-- Whether the value is a roll that has not been thrown. -/
def isRoll : Value → Bool
  | roll _ => true
  | _ => false

def isEmpty : Value → Bool
  | empty => true
  | _ => false

mutual

/-- Whether the value is a roll that has not been thrown, or holds one at any depth. -/
def hasUnthrown : Value → Bool
  | roll _ => true
  | list items => anyUnthrown items
  | _ => false

/-- Whether one of the values holds a roll that has not been thrown. -/
def anyUnthrown : List Value → Bool
  | [] => false
  | v :: vs => v.hasUnthrown || anyUnthrown vs

end

/-! ## Conversions -/

/-- An integer as a floating-point number. -/
def floatOfInt (n : Int) : Except EvalError Float :=
  match Decimal.ofInt? n with
  | some x => .ok x
  | none => .error .integerTooLarge

/-- The failed conversion of a value. -/
def refuse (v : Value) (target : ValueKind) : EvalError :=
  .notConvertible (.kind v.kind) target

mutual

/-- The value as a number; a list stands for its sum. -/
def asDecimal : Value → Except EvalError Total
  | decimal x => .ok (.sum x)
  | natural n => (floatOfInt n).map .sum
  | outcome r => (floatOfInt r.result).map .sum
  | rolls faces => (floatOfInt (Roll.sum faces)).map .sum
  | list items => sumDecimals .nothing items
  | v => .error (v.refuse .decimal)

/-- The sum of some values, added to a total from left to right. -/
def sumDecimals (total : Total) : List Value → Except EvalError Total
  | [] => .ok total
  | v :: vs => do
    let x ← v.asDecimal
    sumDecimals (total.add x) vs

end

mutual

/-- The value as an integer; a decimal loses its fraction, and a list stands for its sum. -/
def asNatural : Value → Except EvalError Int
  | natural n => .ok n
  | decimal x =>
    match Decimal.Dyadic.ofFloat? x with
    | some d => .ok d.truncate
    | none => .error (.notConvertible .nonFiniteDecimal .natural)
  | outcome r => .ok r.result
  | rolls faces => .ok (Roll.sum faces)
  | list items => sumNaturals 0 items
  | v => .error (v.refuse .natural)

/-- The sum of some values as integers, added to a total. -/
def sumNaturals (total : Int) : List Value → Except EvalError Int
  | [] => .ok total
  | v :: vs => do
    let n ← v.asNatural
    sumNaturals (total + n) vs

end

/-- The value as a truth value: a number unless it is zero, a list or text unless it is empty. -/
def asBool : Value → Except EvalError Bool
  | bool b => .ok b
  | natural n => .ok (n != 0)
  | decimal x => .ok (x != 0)
  | outcome r => .ok (r.result != 0)
  | list items => .ok !items.isEmpty
  | rolls faces => .ok !faces.isEmpty
  | string s => .ok !s.isEmpty
  | empty => .ok false
  | v => .error (v.refuse .bool)

/-- The faces behind the value. -/
def asRolls : Value → Except EvalError (List Int)
  | rolls faces => .ok faces
  | outcome r => .ok r.faces
  | v => .error (v.refuse .rolls)

/-- The items of the value; faces count as naturals. -/
def asList : Value → Except EvalError (List Value)
  | list items => .ok items
  | rolls faces => .ok (faces.map natural)
  | outcome r => .ok (r.faces.map natural)
  | v => .error (v.refuse .list)

/-! ## Text forms -/

/-- A character of a string in source text. -/
def escapeChar (c : Char) : List Char :=
  if c == '\\' then ['\\', '\\']
  else if c == '"' then ['\\', '"']
  else if c == '\n' then ['\\', 'n']
  else if c == '\t' then ['\\', 't']
  else [c]

/-- Text as a string literal. -/
def stringLiteral (s : String) : String :=
  String.ofList ('"' :: s.toList.flatMap escapeChar ++ ['"'])

/-- Items as a list literal. -/
def bracketed (items : List String) : String :=
  "[" ++ ", ".intercalate items ++ "]"

mutual

/-- The value as source text. -/
def render : Value → String
  | bool b => if b then "true" else "false"
  | decimal x => Decimal.source x
  | natural n => toString n
  | roll r => r.text
  | outcome r => toString r.result
  | rolls faces => bracketed (faces.map toString)
  | list items => bracketed (renderAll items)
  | string s => stringLiteral s
  | empty => "()"

/-- The values as source text, one by one. -/
def renderAll : List Value → List String
  | [] => []
  | v :: vs => v.render :: renderAll vs

end

mutual

/-- The value as a player sees it: decimals are rounded, all else is source text. -/
def display : Value → String
  | decimal x => Decimal.display x
  | list items => bracketed (displayAll items)
  | v => v.render

/-- The values as a player sees them, one by one. -/
def displayAll : List Value → List String
  | [] => []
  | v :: vs => v.display :: displayAll vs

end

/-- The text of a string, and what a player sees of any other value. -/
def asString : Value → String
  | string s => s
  | v => v.display

/-! ## Equality -/

/-- Whether two integers or decimals are the same number. -/
def sameNumber (a b : Except EvalError Float) : Except EvalError Bool := do
  let x ← a
  let y ← b
  return x == y

mutual

/-- Equality of values: numbers by what they count, lists item by item, all else as it stands.
Rolls that have not been thrown are equal if they are the same dice. -/
def equals : Value → Value → Except EvalError Bool
  | natural m, natural n => sameNumber (floatOfInt m) (floatOfInt n)
  | natural m, decimal y => sameNumber (floatOfInt m) (.ok y)
  | decimal x, natural n => sameNumber (.ok x) (floatOfInt n)
  | decimal x, decimal y => .ok (x == y)
  | list xs, list ys => if xs.length = ys.length then allEqual xs ys else .ok false
  | bool a, bool b => .ok (a == b)
  | roll r, roll s => .ok (r == s)
  | outcome r, outcome s => .ok (r == s)
  | rolls xs, rolls ys => .ok (xs == ys)
  | string s, string t => .ok (s == t)
  | empty, empty => .ok true
  | _, _ => .ok false

/-- Whether two lists of values agree item by item, as far as both go. -/
def allEqual : List Value → List Value → Except EvalError Bool
  | x :: xs, y :: ys => do
    if ← equals x y then allEqual xs ys else return false
  | _, _ => .ok true

end

end Value

end DiceTome
