import DiceTome.EvalError

/-!
# Steps

A step is a computation over a state that may fail, and that keeps what it has done to the state
when it does.
-/

namespace DiceTome

/-- A computation over states of type `s` that may fail and keeps the state either way. -/
abbrev Step (s : Type) := ExceptT EvalError (StateM s)

namespace Step

/-- Runs a step over a part of the state, which is written back also on failure. -/
def within (view : s → t) (update : t → s → s) (step : Step t α) : Step s α := fun st =>
  let (result, part) := step.run (view st)
  (result, update part st)

/-- Runs a step over a state of which a part is given and then dropped. -/
def alone (part : t) (step : Step (t × s) α) : Step s α := fun st =>
  let (result, _, rest) := step.run (part, st)
  (result, rest)

/-- Runs a step and another one afterwards, also on failure. A failure of the other one wins. -/
def andThen (last : Step s Unit) (step : Step s α) : Step s α := fun st =>
  let (result, st) := step.run st
  match last.run st with
  | (.ok _, st) => (result, st)
  | (.error e, st) => (.error e, st)

/-- A result that is known already. -/
def ofExcept (result : Except EvalError α) : Step s α :=
  ExceptT.mk (pure result)

end Step

end DiceTome
