import DiceTome.Value

/-!
# Outcomes

An outcome is a value with the log of every roll thrown on the way to it. Converting an outcome
throws its dice at most once: the thrown roll takes the place of the dice, and the log gains an
entry. Operations make a new outcome whose log is the left operand's log followed by the right
operand's; the operands keep the dice they have thrown, also if the operation fails afterwards.

* `Outcome.resolve` throws the dice of an outcome.
* `Outcome.unary` and `Outcome.binary` are the operators.
* `keepHighest` drops the lowest faces.
-/

namespace DiceTome

/-- A value and the log of the rolls behind it. -/
structure Outcome where
  value : Value := .empty
  rolls : List Rolled := []
  deriving Repr, Inhabited

/-! ## Throwing the dice of a value -/

namespace Value

/-- Throws a roll and enters it into the log. -/
def throwLogged [DiceSource σ] (r : Roll) : Step (List Rolled × σ) Value := do
  let rolled ← Step.within Prod.snd (fun dice st => (st.1, dice)) r.throw
  modify fun st => (st.1 ++ [rolled], st.2)
  return .outcome rolled

mutual

/-- The value with its dice thrown; inside lists only if `deep` asks for it. -/
def resolve [DiceSource σ] (deep : Bool) : Value → Step (List Rolled × σ) Value
  | roll r => throwLogged r
  | list items => if deep then list <$> resolveAll deep items else return list items
  | v => return v

/-- The values with their dice thrown, from left to right. -/
def resolveAll [DiceSource σ] (deep : Bool) : List Value → Step (List Rolled × σ) (List Value)
  | [] => return []
  | v :: vs => do
    let v ← v.resolve deep
    let vs ← resolveAll deep vs
    return v :: vs

end

end Value

namespace Outcome

/-! ## Conversions in place -/

/-- Throws the dice of an outcome. The thrown value takes the old one's place only if all went well,
while the log keeps every roll thrown before a failure. -/
def resolve [DiceSource σ] (deep : Bool := false) : Step (Outcome × σ) Value := do
  let (o, _) ← get
  let value ← Step.within (fun st => (st.1.rolls, st.2))
    (fun (rolls, dice) st => ({ st.1 with rolls }, dice)) (o.value.resolve deep)
  modify fun st => ({ st.1 with value }, st.2)
  return value

/-- The number of an outcome, all of its dice thrown. -/
def asDecimal [DiceSource σ] : Step (Outcome × σ) Total := do
  Step.ofExcept (← resolve true).asDecimal

/-- The integer of an outcome, all of its dice thrown. -/
def asNatural [DiceSource σ] : Step (Outcome × σ) Int := do
  Step.ofExcept (← resolve true).asNatural

/-- The truth value of an outcome, a roll at its top thrown. -/
def asBool [DiceSource σ] : Step (Outcome × σ) Bool := do
  Step.ofExcept (← resolve).asBool

/-- The text of an outcome, a roll at its top thrown. -/
def asString [DiceSource σ] : Step (Outcome × σ) String := do
  return (← resolve).asString

/-- The faces of an outcome, a roll at its top thrown. -/
def faces [DiceSource σ] : Step (Outcome × σ) (List Int) := do
  Step.ofExcept (← resolve).asRolls

/-- Runs a conversion on an outcome that is handed over and back. -/
def through (step : Step (Outcome × σ) α) (o : Outcome) : Step σ (α × Outcome) := fun dice =>
  match step.run (o, dice) with
  | (.ok a, (o, dice)) => (.ok (a, o), dice)
  | (.error e, (_, dice)) => (.error e, dice)

/-- The outcome with a roll at its top thrown. -/
def resolved [DiceSource σ] (o : Outcome) : Step σ Outcome := do
  return (← o.through resolve).2

/-- The outcome as a player sees it: a line for every roll in the log, then the value unless it is
empty. -/
def text (o : Outcome) : String :=
  "\n".intercalate (o.rolls.map Rolled.text ++ if o.value.isEmpty then [] else [o.value.display])

/-- A value with the joined logs of some outcomes. -/
def gather (value : Value) (parts : List Outcome) : Outcome :=
  ⟨value, parts.flatMap Outcome.rolls⟩

end Outcome

/-! ## Faces kept -/

/-- The list without the first of its smallest members. -/
def eraseSmallest (faces : List Int) : List Int :=
  match faces.min? with
  | none => []
  | some least => faces.erase least

/-- The list after its smallest member has been removed `n` times. -/
def dropSmallest : Nat → List Int → List Int
  | 0, faces => faces
  | n + 1, faces => dropSmallest n (eraseSmallest faces)

/-- The faces without the smallest ones, so that at most `count` remain, in their order; of equal
faces the earlier goes first. -/
def keepHighest (faces : List Int) (count : Int) : List Int :=
  dropSmallest (faces.length - (max count 0).toNat) faces

/-! ## Operators of one operand -/

namespace Outcome

/-- A new outcome with the log of the operand. -/
def carry (value : Value) : Step (Outcome × σ) Outcome := do
  return ⟨value, (← get).1.rolls⟩

/-- The operand's roll with a flag set. -/
def flagged (set : Roll → Roll) : Step (Outcome × σ) Outcome := do
  match (← get).1.value with
  | .roll r => carry (.roll (set r))
  | v => throw (.expectedRoll v.kind)

/-- The outcome of an operator of one operand. -/
def unary [DiceSource σ] : UnaryOp → Step (Outcome × σ) Outcome
  | .neg => do carry (.decimal (← asDecimal).negate)
  | .not => do carry (.bool !(← asBool))
  | .sort => do carry (.rolls ((← faces).mergeSort fun a b => decide (a ≤ b)))
  | .advantage => flagged fun r => { r with advantage := true }
  | .disadvantage => flagged fun r => { r with disadvantage := true }

end Outcome

/-! ## Operators of two operands -/

/-- The operands of an operator: two outcomes, or one that stands on both sides, so that its dice
are thrown once. -/
inductive Operands where
  | pair (left right : Outcome)
  | shared (both : Outcome)
  deriving Repr

namespace Operands

def left : Operands → Outcome
  | pair l _ => l
  | shared o => o

def right : Operands → Outcome
  | pair _ r => r
  | shared o => o

def setLeft (o : Outcome) : Operands → Operands
  | pair _ r => pair o r
  | shared _ => shared o

def setRight (o : Outcome) : Operands → Operands
  | pair l _ => pair l o
  | shared _ => shared o

/-- A step on the left operand. -/
def onLeft (step : Step (Outcome × σ) α) : Step (Operands × σ) α :=
  Step.within (fun st => (st.1.left, st.2)) (fun (o, dice) st => (st.1.setLeft o, dice)) step

/-- A step on the right operand. -/
def onRight (step : Step (Outcome × σ) α) : Step (Operands × σ) α :=
  Step.within (fun st => (st.1.right, st.2)) (fun (o, dice) st => (st.1.setRight o, dice)) step

/-- A new outcome with the joined logs of the operands. -/
def merge (value : Value) : Step (Operands × σ) Outcome := do
  let (ops, _) ← get
  return ⟨value, ops.left.rolls ++ ops.right.rolls⟩

end Operands

namespace Outcome

open Operands

/-- The number that an arithmetic operator makes of two totals: division by zero and any result
that is not finite are refused. -/
def calculate (op : BinaryOp) (f : Float → Float → Float) (a b : Total) : Except EvalError Float :=
  if op = .div ∧ b.toFloat == 0 then .error .divisionByZero
  else
    let x := f a.toFloat b.toFloat
    if x.isFinite then .ok x else .error (.noFiniteResult a op b)

/-- An arithmetic operator on the numbers of its operands. -/
def arithmetic [DiceSource σ] (op : BinaryOp) (f : Float → Float → Float) :
    Step (Operands × σ) Outcome := do
  let a ← onLeft asDecimal
  let b ← onRight asDecimal
  merge (.decimal (← Step.ofExcept (calculate op f a b)))

/-- A comparison of the numbers of the operands. -/
def compare [DiceSource σ] (f : Float → Float → Bool) : Step (Operands × σ) Outcome := do
  let a ← onLeft asDecimal
  let b ← onRight asDecimal
  merge (.bool (f a.toFloat b.toFloat))

/-- A connective of the truth values of the operands; both are always asked for. -/
def connective [DiceSource σ] (f : Bool → Bool → Bool) : Step (Operands × σ) Outcome := do
  let a ← onLeft asBool
  let b ← onRight asBool
  merge (.bool (f a b))

/-- The texts of the operands one after the other. -/
def concat [DiceSource σ] : Step (Operands × σ) Outcome := do
  let a ← onLeft asString
  let b ← onRight asString
  merge (.string (a ++ b))

/-- Whether the operands are equal as they stand; dice stay unthrown. -/
def same : Step (Operands × σ) Outcome := do
  let (ops, _) ← get
  merge (.bool (← Step.ofExcept (ops.left.value.equals ops.right.value)))

/-- The highest faces of the left operand. -/
def keep [DiceSource σ] : Step (Operands × σ) Outcome := do
  let shown ← onLeft faces
  let count ← onRight asNatural
  merge (.rolls (keepHighest shown count))

/-- Whether one of the operands is a string. -/
def anyString (ops : Operands) : Bool :=
  ops.left.value.kind = .string ∨ ops.right.value.kind = .string

/-- The outcome of an operator that works on outcomes. Sequencing and assignment are no such
operators: they give the right operand's value. -/
def binary [DiceSource σ] (op : BinaryOp) : Step (Operands × σ) Outcome := do
  match op with
  | .add => if anyString (← get).1 then concat else arithmetic op (· + ·)
  | .sub => arithmetic op (· - ·)
  | .mul => arithmetic op (· * ·)
  | .div => arithmetic op (· / ·)
  | .pow => arithmetic op Float.pow
  | .and => connective and
  | .or => connective or
  | .equal => same
  | .greater => compare fun a b => b < a
  | .less => compare fun a b => a < b
  | .greaterEqual => compare fun a b => b ≤ a
  | .lessEqual => compare fun a b => a ≤ b
  | .keep => keep
  | .discard | .assign => do merge (← get).1.right.value

end Outcome

end DiceTome
