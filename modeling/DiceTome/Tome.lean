import DiceTome.Error
import DiceTome.Evaluate

/-!
# Tomes

A tome is a text of statements, one after another. A context is written out as a tome that rebuilds
its functions and variables, and every new session may start from the tome of default definitions.

* `World.evalSource` evaluates a text of one statement and throws a roll at its top.
* `World.evalTome` evaluates a tome.
* `Context.dump` writes a context as a tome.
-/

namespace DiceTome

/-- A step over the world that fails with an error of a source text. -/
abbrev Act (σ : Type) := ExceptT Error (StateM (World σ))

/-- A step of evaluation. -/
def Run.act (run : Run σ α) : Act σ α := fun w =>
  let (result, w) := run.run w
  (result.mapError .eval, w)

/-- The arena of a text of one expression. -/
def parseSource (source : String) : Except Error Arena := do
  let tokens ← (Token.scan source).mapError (.scan source)
  (Arena.parse tokens).mapError (.parse source)

/-- The arenas of the statements of a text. -/
def parseTome (source : String) : Except Error (List Arena) := do
  let tokens ← (Token.scan source).mapError (.scan source)
  (Arena.parseTome tokens).mapError (.parse source)

namespace World

/-- Evaluates a text of one statement and throws a roll at its top. A text without tokens gives an
empty outcome. -/
def evalSource [DiceSource σ] (source : String) (scope : Index := Context.root) :
    Act σ Outcome := do
  let tokens ← ExceptT.mk (pure ((Token.scan source).mapError (.scan source)))
  if tokens.isEmpty then return {}
  let arena ← ExceptT.mk (pure ((Arena.parse tokens).mapError (.parse source)))
  let outcome ← (evalArena arena scope).act
  (onDice outcome.resolved).act

/-- Evaluates a text of one statement and leaves a roll at its top as it is. -/
def evalExpression [DiceSource σ] (source : String) (scope : Index := Context.root) :
    Act σ Outcome := do
  let arena ← ExceptT.mk (pure (parseSource source))
  (evalArena arena scope).act

/-- Evaluates statements one after another in the root scope. -/
def evalStatements [DiceSource σ] : List Arena → Run σ (List Outcome)
  | [] => return []
  | a :: as => do
    let o ← evalArena a
    let os ← evalStatements as
    return o :: os

/-- Evaluates a tome in the root scope. -/
def evalTome [DiceSource σ] (source : String) : Act σ (List Outcome) := do
  let statements ← ExceptT.mk (pure (parseTome source))
  let outcomes ← (evalStatements statements).act
  (record (.evaluated outcomes.length)).act
  return outcomes

end World

/-! ## Writing a context -/

namespace Context

/-- The root scope. -/
def rootScope (c : Context) : Scope :=
  c.scopes[0]?.getD {}

/-- The definition of a variable as source text. -/
def variableLine (name : String) (v : Value) : String :=
  name ++ " = " ++ v.render

/-- The definitions in the root scope: the functions by age, then the variables in order, except
those without a value. -/
def dumpLines (c : Context) : List String :=
  c.rootScope.functions.map Function.render ++
    (c.rootScope.values.filter fun p => !p.2.isEmpty).map fun p => variableLine p.1 p.2

/-- The context as a tome. -/
def dump (c : Context) : String :=
  String.join (c.dumpLines.map (· ++ "\n"))

/-- The events of writing the context. -/
def dumpEvents (c : Context) : List Event :=
  (c.rootScope.values.filter fun p => p.2.isEmpty).map fun p => .skippedEmpty p.1

end Context

/-! ## Default definitions -/

/-- The definitions that a new session starts with unless it is told not to. -/
def defaultTome : String :=
  let lines := [
    "# Definitions loaded into every new context.",
    "",
    "# Ability scores and modifiers",
    "STRENGTH = 10",
    "DEXTERITY = 10",
    "CONSTITUTION = 10",
    "INTELLIGENCE = 10",
    "WISDOM = 10",
    "CHARISMA = 10",
    "modifier(stat) = floor((stat - 10) / 2)",
    "STR() = modifier(STRENGTH)",
    "DEX() = modifier(DEXTERITY)",
    "CON() = modifier(CONSTITUTION)",
    "INT() = modifier(INTELLIGENCE)",
    "WIS() = modifier(WISDOM)",
    "CHA() = modifier(CHARISMA)",
    "",
    "# Proficiency",
    "LEVEL = 1",
    "PROF() = floor((LEVEL - 1) / 4) + 2",
    "EXPT() = PROF() * 2",
    "",
    "# Wealth, tracked in copper pieces",
    "WEALTH_CP = 0",
    "spend_cp(cp) = WEALTH_CP = WEALTH_CP - cp",
    "gain_cp(cp) = spend_cp(-cp)",
    "spend_sp(sp) = spend_cp(sp * 10) / 10",
    "gain_sp(sp) = spend_sp(-sp)",
    "spend_ep(ep) = spend_cp(ep * 50) / 50",
    "gain_ep(ep) = spend_ep(-ep)",
    "spend_gp(gp) = spend_cp(gp * 100) / 100",
    "gain_gp(gp) = spend_gp(-gp)",
    "spend_pp(pp) = spend_cp(pp * 1000) / 1000",
    "gain_pp(pp) = spend_pp(-pp)",
    "",
    "# Expected value of a roll",
    "avg(roll) = quantity(roll) * (dice(roll) + 1) / 2"]
  String.join (lines.map (· ++ "\n"))

/-- A world with fresh scopes, with or without the default definitions. -/
def World.create [DiceSource σ] (defaults : Bool) : Act σ Unit := do
  modify fun w => { w with context := {} }
  if defaults then
    let _ ← World.evalTome defaultTome

end DiceTome
