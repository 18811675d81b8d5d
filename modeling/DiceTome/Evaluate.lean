import DiceTome.Arena
import DiceTome.World

/-!
# Evaluation

Expressions are evaluated from left to right in a scope of a world. A call evaluates the body of the
function in a new scope below the one the function was defined in, and closes that scope again
whether the body succeeds or not.

`Expr.evalWith` is structural on the expression and leaves calls to a parameter. `evalWithin` ties
the knot: a call is given one level less than its caller, and since no call is made while more than
`maxCallDepth` scopes are open, the levels that remain are never used up before the scopes are.
-/

namespace DiceTome

/-- The deepest chain of calls. -/
def maxCallDepth : Nat := 100

/-- How a function is called: the scope of the call, the name and the arguments. -/
abbrev CallRule (σ : Type) := Index → String → List Value → Run σ Outcome

namespace Expr

/-- The names of the parameters in a definition of a function. -/
def parameterNames (callee : String) : List Expr → Except EvalError (List String)
  | [] => .ok []
  | name n :: es => do return n :: (← parameterNames callee es)
  | e :: _ => .error (.invalidParameter callee e.render)

/-- The value of a name: of a variable, or of a function called without arguments. -/
def evalName (call : CallRule σ) (scope : Index) (n : String) : Run σ Outcome := do
  match ← World.ask (·.value? scope n) with
  | some v => return { value := v }
  | none =>
    if ← World.ask (·.isCallable scope n) then call scope n []
    else throw (.undefinedVariable n)

mutual

/-- Evaluates an expression in a scope. -/
def evalWith [DiceSource σ] (call : CallRule σ) (scope : Index) : Expr → Run σ Outcome
  | literal l => return { value := l.value }
  | name n => evalName call scope n
  | list items => do
    let parts ← evalAll call scope items
    return .gather (.list (parts.map Outcome.value)) parts
  | .call callee args => do
    let parts ← evalAll call scope args
    let result ← call scope callee (parts.map Outcome.value)
    return .gather result.value (parts ++ [result])
  | binary .assign (name n) rhs => do
    let result ← rhs.evalWith call scope
    World.setVariable scope n result.value
    return result
  | binary .assign (.call callee args) rhs => do
    let parameters ← Step.ofExcept (parameterNames callee args)
    World.defineFunction scope callee rhs parameters
    return {}
  | binary .assign lhs _ => throw (.invalidTarget lhs.render)
  | binary .discard lhs rhs => do
    let left ← lhs.evalWith call scope
    let right ← rhs.evalWith call scope
    return .gather right.value [left, right]
  | binary op lhs rhs => do
    let left ← lhs.evalWith call scope
    let right ← rhs.evalWith call scope
    World.onDice (Step.alone (.pair left right) (Outcome.binary op))
  | unary op operand => do
    let part ← operand.evalWith call scope
    World.onDice (Step.alone part (Outcome.unary op))
  | ifThen condition consequent => do
    let test ← condition.evalWith call scope
    let (holds, test) ← World.onDice (test.through Outcome.asBool)
    if holds then
      let branch ← consequent.evalWith call scope
      return .gather branch.value [test, branch]
    else
      return .gather .empty [test]
  | ifElse condition consequent alternative => do
    let test ← condition.evalWith call scope
    let (holds, test) ← World.onDice (test.through Outcome.asBool)
    let branch ← if holds then consequent.evalWith call scope else alternative.evalWith call scope
    return .gather branch.value [test, branch]

/-- Evaluates some expressions from left to right. -/
def evalAll [DiceSource σ] (call : CallRule σ) (scope : Index) : List Expr → Run σ (List Outcome)
  | [] => return []
  | e :: es => do
    let o ← e.evalWith call scope
    let os ← evalAll call scope es
    return o :: os

end

end Expr

/-! ## Calls -/

/-- Calls a builtin function. -/
def callBuiltin [DiceSource σ] (name : String) (args : List Value) : Run σ Outcome := do
  let (result, printed) ← World.onDice (Builtin.call name args)
  match printed with
  | some line => World.printLine line
  | none => pure ()
  return result

/-- Binds parameters to arguments, from the first to the last. -/
def bindArguments (scope : Index) : List String → List Value → Run σ Unit
  | n :: ns, v :: vs => do
    World.bind scope n (.value v)
    bindArguments scope ns vs
  | _, _ => return ()

/-- Calls the function of a name as seen from a scope; `enter` evaluates a body in its scope. -/
def callFunction [DiceSource σ] (enter : Function → Nat → Run σ Outcome) : CallRule σ :=
  fun scope name args => do
    match ← World.ask (·.function? scope name) with
    | none => callBuiltin name args
    | some f =>
      if args.length ≠ f.parameters.length then
        throw (.argumentCount name f.parameters.length args.length)
      if maxCallDepth < (← get).context.scopes.size then throw (.callDepth name)
      World.record (.called name args)
      let child ← World.pushScope f.scope name
      Step.andThen (World.closeFrom child) do
        bindArguments child f.parameters args
        enter f child

/-- Evaluates an expression in a scope, with calls nested to the given level at most. -/
def evalWithin [DiceSource σ] : Nat → Index → Expr → Run σ Outcome
  | 0, scope, e =>
    e.evalWith (callFunction fun f _ => throw (.callDepth f.name)) scope
  | level + 1, scope, e =>
    e.evalWith (callFunction fun f child => evalWithin level child f.body) scope

/-- The number of calls that can still be nested. -/
def levelsLeft (w : World σ) : Nat :=
  maxCallDepth + 1 - w.context.scopes.size

namespace World

/-- Evaluates an expression in a scope. -/
def eval [DiceSource σ] (e : Expr) (scope : Index := Context.root) : Run σ Outcome := do
  evalWithin (levelsLeft (← get)) scope e

/-- Evaluates the expression of an arena; an empty arena gives an empty outcome. -/
def evalArena [DiceSource σ] (a : Arena) (scope : Index := Context.root) : Run σ Outcome := do
  match a.expr? with
  | some e => eval e scope
  | none => return {}

/-- Calls the function of a name as seen from a scope. -/
def call [DiceSource σ] (scope : Index) (name : String) (args : List Value) : Run σ Outcome := do
  let level := levelsLeft (← get)
  callFunction (fun f child => evalWithin (level - 1) child f.body) scope name args

end World

end DiceTome
