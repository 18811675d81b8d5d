import DiceTome.Outcome

/-!
# Builtin functions

The functions that every session knows. They take their arguments as outcomes, so that they can
throw dice; the rolls they throw are in the log of the result, argument by argument.
-/

namespace DiceTome

/-- The builtin functions. -/
inductive Builtin where
  | abs | ceil | dice | floor | get | len | max | min | print | quantity | round | set
  deriving Repr, DecidableEq

namespace Builtin

/-- Every builtin function in the order of the names. -/
def all : List Builtin :=
  [abs, ceil, dice, floor, get, len, max, min, print, quantity, round, set]

def name : Builtin → String
  | abs => "abs"
  | ceil => "ceil"
  | dice => "dice"
  | floor => "floor"
  | get => "get"
  | len => "len"
  | max => "max"
  | min => "min"
  | print => "print"
  | quantity => "quantity"
  | round => "round"
  | set => "set"

/-- The builtin function of a name. -/
def ofName? (name : String) : Option Builtin :=
  all.find? fun f => f.name = name

/-- The exact number of arguments, for a function that has one. -/
def arity? : Builtin → Option Nat
  | max | min | print => none
  | get => some 2
  | set => some 3
  | _ => some 1

/-- The least number of arguments of a function that takes any number from there on. -/
def minArgs : Builtin → Nat
  | max | min => 1
  | _ => 0

/-- What the function does, in a few words. -/
def doc : Builtin → String
  | abs => "Absolute value"
  | ceil => "Round up to a natural"
  | dice => "Faces per die in a roll"
  | floor => "Round down to a natural"
  | get => "List item at a zero-based index"
  | len => "Length of a list or string"
  | max => "Largest argument or list item"
  | min => "Smallest argument or list item"
  | print => "Write values to standard output"
  | quantity => "Number of dice in a roll"
  | round => "Round half away from zero"
  | set => "Copy of a list with one item replaced"

/-- The number of arguments that a call should have had. -/
def expectedArgs (f : Builtin) : Nat :=
  f.arity?.getD f.minArgs

/-- Whether a call may have the given number of arguments. -/
def accepts (f : Builtin) (count : Nat) : Bool :=
  match f.arity? with
  | some n => count = n
  | none => f.minArgs ≤ count

/-- What a call gives: its value, the arguments with the dice they have thrown, and a line of output
if it writes one. -/
structure Reply where
  value : Value
  args : List Outcome
  printed : Option String := none
  deriving Repr

/-! ## Integers from numbers -/

/-- An integer made from a finite number. -/
def integerOf (round : Decimal.Dyadic → Int) (x : Float) : Except EvalError Int :=
  match Decimal.Dyadic.ofFloat? x with
  | some d => .ok (round d)
  | none => .error (if x.isNaN then .notANumberToInteger else .infinityToInteger)

/-- The nearest integer, where a half goes away from zero. -/
def roundHalfAway (x : Float) : Except EvalError Int := do
  let n ← integerOf Decimal.Dyadic.floor (x.abs + 0.5)
  return if x < 0 then -n else n

/-- A function that makes an integer of a number. -/
def rounding [DiceSource σ] (round : Float → Except EvalError Int) (x : Outcome) :
    Step σ Reply := do
  let (total, x) ← x.through Outcome.asDecimal
  return { value := .natural (← Step.ofExcept (round total.toFloat)), args := [x] }

/-! ## Rolls and lists -/

/-- The roll behind a value, thrown or not. -/
def rollOf (v : Value) : Except EvalError Roll :=
  match v with
  | .roll r => .ok r
  | .outcome r => .ok r.roll
  | v => .error (.expectedRoll v.kind)

/-- An index into a list of the given length. -/
def indexOf (index : Int) (length : Nat) : Except EvalError Nat :=
  if 0 ≤ index ∧ index < length then .ok index.toNat else .error (.indexOutOfRange index length)

/-- The numbers of some outcomes, from left to right, and the outcomes with their dice thrown. -/
def decimalsOf [DiceSource σ] : List Outcome → Step σ (List Float × List Outcome)
  | [] => return ([], [])
  | o :: os => do
    let (total, o) ← o.through Outcome.asDecimal
    let (totals, os) ← decimalsOf os
    return (total.toFloat :: totals, o :: os)

/-- The outcomes that stand for the items of a lone list among the arguments. -/
def spread? (args : List Outcome) : Except EvalError (Option (List Outcome)) :=
  match args with
  | [o] =>
    let items? :=
      match o.value with
      | .list items => some items
      | .rolls faces => some (faces.map .natural)
      | _ => none
    match items? with
    | some [] => .error (.notConvertible .emptyList .decimal)
    | some items => .ok (some (items.map fun v => { value := v }))
    | none => .ok none
  | _ => .ok none

/-- Throws the dice of a lone argument, inside lists as well. -/
def resolveLone [DiceSource σ] (args : List Outcome) : Step σ (List Outcome) :=
  match args with
  | [o] => do return [(← o.through (Outcome.resolve true)).2]
  | args => return args

/-- The number that wins against all others, where a later one has to be better to win; a lone list
stands for its items. -/
def extreme [DiceSource σ] (better : Float → Float → Bool) (args : List Outcome) :
    Step σ Reply := do
  let args ← resolveLone args
  let best (xs : List Float) : Value :=
    .decimal (xs.tail.foldl (fun best x => if better x best then x else best) (xs.headD 0))
  match ← Step.ofExcept (spread? args) with
  | some items =>
    let (xs, _) ← decimalsOf items
    return { value := best xs, args }
  | none =>
    let (xs, args) ← decimalsOf args
    return { value := best xs, args }

/-- The texts of some outcomes, from left to right, and the outcomes with their dice thrown. -/
def stringsOf [DiceSource σ] : List Outcome → Step σ (List String × List Outcome)
  | [] => return ([], [])
  | o :: os => do
    let (s, o) ← o.through Outcome.asString
    let (strings, os) ← stringsOf os
    return (s :: strings, o :: os)

/-! ## Calls -/

/-- The function on arguments of the right number. -/
def run [DiceSource σ] (f : Builtin) (args : List Outcome) : Step σ Reply := do
  match f, args with
  | ceil, [x] => rounding (integerOf Decimal.Dyadic.ceil) x
  | floor, [x] => rounding (integerOf Decimal.Dyadic.floor) x
  | round, [x] => rounding roundHalfAway x
  | abs, [x] =>
    match x.value with
    | .natural n => return { value := .natural n.natAbs, args }
    | _ =>
      let (total, x) ← x.through Outcome.asDecimal
      return { value := .decimal total.toFloat.abs, args := [x] }
  | min, args => extreme (fun x best => x < best) args
  | max, args => extreme (fun x best => best < x) args
  | quantity, [x] => return { value := .natural (← Step.ofExcept (rollOf x.value)).quantity, args }
  | dice, [x] => return { value := .natural (← Step.ofExcept (rollOf x.value)).die, args }
  | len, [x] =>
    let (v, x) ← x.through Outcome.resolve
    match v with
    | .string s => return { value := .natural s.length, args := [x] }
    | v => return { value := .natural (← Step.ofExcept v.asList).length, args := [x] }
  | get, [items, index] =>
    let (v, items) ← items.through Outcome.resolve
    let values ← Step.ofExcept v.asList
    let (n, index) ← index.through Outcome.asNatural
    let i ← Step.ofExcept (indexOf n values.length)
    return { value := values[i]?.getD .empty, args := [items, index] }
  | set, [items, index, item] =>
    let (v, items) ← items.through Outcome.resolve
    let values ← Step.ofExcept v.asList
    let (n, index) ← index.through Outcome.asNatural
    let i ← Step.ofExcept (indexOf n values.length)
    return { value := .list (values.set i item.value), args := [items, index, item] }
  | print, args =>
    let (strings, args) ← stringsOf args
    return { value := .empty, args, printed := some (" ".intercalate strings) }
  | f, args => throw (.argumentCount f.name f.expectedArgs args.length)

/-- Calls a builtin function by name. -/
def call [DiceSource σ] (name : String) (args : List Value) : Step σ (Outcome × Option String) := do
  match ofName? name with
  | none => throw (.undefinedFunction name)
  | some f =>
    if f.accepts args.length then
      let reply ← f.run (args.map fun v => { value := v })
      return (.gather reply.value reply.args, reply.printed)
    else throw (.argumentCount name f.expectedArgs args.length)

end Builtin

end DiceTome
