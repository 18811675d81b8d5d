import DiceTome.Builtin
import DiceTome.Scope

/-!
# The world of an evaluation

Evaluation works on a world: the scopes with their bindings, the dice, the number of functions
declared so far, what has been written to the output, and a journal of what happened.

* `Context.lookup` finds the nearest binding of a name along the chain of scopes.
* `World.pushScope` and `World.popScope` open and close scopes, the innermost first.
-/

namespace DiceTome

/-- The scopes of a session; the first is the root. -/
structure Context where
  scopes : Array Scope := #[{}]
  deriving Repr, Inhabited

/-- How much an event matters. -/
inductive Severity where
  | debug | info | warning
  deriving Repr, DecidableEq

/-- What the journal records. -/
inductive Event where
  | pushed (scope : Nat) (name : String) (parent : Index)
  | popped (scope : Nat) (name : String)
  | defined (f : Function) (scope : Index)
  | called (name : String) (args : List Value)
  | skippedEmpty (name : String)
  | evaluated (statements : Nat)
  | saved (path : String)
  | loaded (path : String)
  | configured (settings : String)
  | unreadableCache (reason : String)
  | unwritableCache (reason : String)
  deriving Repr

namespace Event

def severity : Event → Severity
  | saved _ | loaded _ => .info
  | unreadableCache _ | unwritableCache _ => .warning
  | _ => .debug

/-- The part of the program that records the event. -/
def origin : Event → String
  | pushed _ _ _ | popped _ _ | defined _ _ | called _ _ | skippedEmpty _ => "spells.context"
  | evaluated _ => "spells.evaluator"
  | saved _ | loaded _ => "spells.persistence"
  | configured _ | unreadableCache _ | unwritableCache _ => "spells.__main__"

/-- The text of the event. -/
def message : Event → String
  | pushed scope name parent => s!"push scope {scope} ({name}) under {parent}"
  | popped scope name => s!"pop scope {scope} ({name})"
  | defined f scope => s!"defined {f.render} in scope {scope}"
  | called name args => s!"call {name}(" ++ ", ".intercalate (args.map Value.display) ++ ")"
  | skippedEmpty name => s!"skipping empty variable {name}"
  | evaluated statements => s!"evaluated {statements} statements"
  | saved path => s!"saved to {path}"
  | loaded path => s!"loaded {path}"
  | configured settings => s!"config: {settings}"
  | unreadableCache reason => s!"ignoring unreadable session cache: {reason}"
  | unwritableCache reason => s!"could not write the session cache: {reason}"

end Event

/-- Everything that evaluation reads and changes. -/
structure World (σ : Type) where
  context : Context := {}
  dice : σ
  declared : Nat := 0
  output : String := ""
  journal : Array Event := #[]

/-- A step over the world. -/
abbrev Run (σ : Type) := Step (World σ)

/-! ## Names -/

namespace Context

/-- The index of the root scope. -/
def root : Index := 0

/-- The scope at an index, if there is one. -/
def scope? (c : Context) (index : Index) : Option Scope := do
  c.scopes[← Index.position? c.scopes.size index]?

/-- The scope at an index. -/
def scope (c : Context) (index : Index) : Except EvalError Scope :=
  match c.scope? index with
  | some s => .ok s
  | none => .error .noSuchScope

/-- Changes the scope at an index, if there is one. -/
def modifyScope (c : Context) (index : Index) (change : Scope → Scope) : Context :=
  match Index.position? c.scopes.size index with
  | some i => { c with scopes := c.scopes.modify i change }
  | none => c

/-- The nearest binding of a name, seen from a scope, and the scope that holds it; the chain is
followed for at most `steps` scopes. -/
def lookupWithin (c : Context) (name : String) :
    Nat → Index → Except EvalError (Option (Index × Binding))
  | 0, _ => .error .noSuchScope
  | steps + 1, scope =>
    match c.scope? scope with
    | none => .error .noSuchScope
    | some s =>
      match s.find? name, s.parent with
      | some b, _ => .ok (some (scope, b))
      | none, none => .ok none
      | none, some parent => lookupWithin c name steps parent

/-- The nearest binding of a name, seen from a scope, and the scope that holds it. A chain that ends
passes through each scope at most once. -/
def lookup (c : Context) (scope : Index) (name : String) :
    Except EvalError (Option (Index × Binding)) :=
  c.lookupWithin name c.scopes.size scope

/-- The value that a name stands for, unless its nearest binding is something else. -/
def value? (c : Context) (scope : Index) (name : String) : Except EvalError (Option Value) := do
  match ← c.lookup scope name with
  | some (_, .value v) => return some v
  | _ => return none

/-- The function that a name stands for, unless its nearest binding is something else. -/
def function? (c : Context) (scope : Index) (name : String) :
    Except EvalError (Option Function) := do
  match ← c.lookup scope name with
  | some (_, .function f) => return some f
  | _ => return none

/-- Whether a name can be called. -/
def isCallable (c : Context) (scope : Index) (name : String) : Except EvalError Bool := do
  return (← c.function? scope name).isSome || (Builtin.ofName? name).isSome

/-- Binds a name in one scope. -/
def bind (c : Context) (scope : Index) (name : String) (b : Binding) : Context :=
  c.modifyScope scope (·.insert name b)

end Context

namespace World

/-- Enters an event into the journal. -/
def record (e : Event) : Run σ Unit :=
  modify fun w => { w with journal := w.journal.push e }

/-- Writes a line to the output. -/
def printLine (line : String) : Run σ Unit :=
  modify fun w => { w with output := w.output ++ line ++ "\n" }

/-- A step over the dice. -/
def onDice (step : Step σ α) : Run σ α :=
  Step.within World.dice (fun dice w => { w with dice }) step

/-- The answer to a question about the context. -/
def ask (question : Context → Except EvalError α) : Run σ α := do
  Step.ofExcept (question (← get).context)

/-- Binds a name in one scope. -/
def bind (scope : Index) (name : String) (b : Binding) : Run σ Unit :=
  modify fun w => { w with context := w.context.bind scope name b }

/-- Gives a name a value: where it is bound already, or else in the given scope. -/
def setVariable (scope : Index) (name : String) (v : Value) : Run σ Unit := do
  let owner := match ← ask (·.lookup scope name) with
    | some (owner, _) => owner
    | none => scope
  bind owner name (.value v)

/-- Defines a function in a scope. -/
def defineFunction (scope : Index) (name : String) (body : Expr) (parameters : List String) :
    Run σ Unit := do
  let declaration := (← get).declared + 1
  modify fun w => { w with declared := declaration }
  let f : Function := { name, body, parameters, scope, declaration }
  let _ ← ask (·.scope scope)
  bind scope name (.function f)
  record (.defined f scope)

/-! ## Opening and closing scopes -/

/-- Opens a scope below another one and gives its index. -/
def pushScope (parent : Index) (name : String) : Run σ Nat := do
  let index := (← get).context.scopes.size
  modify fun w =>
    { w with context.scopes := w.context.scopes.push { parent := some parent, name } }
  let _ ← ask (·.scope parent)
  bind parent (Scope.childKey name index) (.child index)
  record (.pushed index name parent)
  return index

/-- The context without its last scope, and without the mention of it in the scope it lies in. -/
def dropInnermost (c : Context) : Context :=
  match c.scopes.back? with
  | none => c
  | some s =>
    let rest : Context := ⟨c.scopes.pop⟩
    match s.parent with
    | none => rest
    | some parent => rest.modifyScope parent (·.erase (Scope.childKey s.name rest.scopes.size))

/-- Whether the last scope lies in a scope that is not there without it. -/
def innermostIsStray (c : Context) : Bool :=
  c.scopes.back?.any fun s =>
    s.parent.any fun parent => (Index.position? (c.scopes.size - 1) parent).isNone

/-- Closes the last scope. One that lies in none is closed too, but with an error. -/
def closeInnermost : Run σ Unit := do
  let c := (← get).context
  modify fun w => { w with context := dropInnermost w.context }
  if innermostIsStray c then throw .noSuchScope
  match c.scopes.back? with
  | some s => record (.popped (c.scopes.size - 1) s.name)
  | none => return ()

/-- Closes a scope, which has to be the innermost and not the root. -/
def popScope (index : Index) : Run σ Unit := do
  if index = Context.root then throw .rootScopePopped
  else if index + 1 ≠ (← get).context.scopes.size then throw (.notInnermost index)
  else closeInnermost

/-- Closes the last `n` scopes. -/
def closeScopes : Nat → Run σ Unit
  | 0 => return ()
  | n + 1 => do
    closeInnermost
    closeScopes n

/-- Closes every scope from an index on. -/
def closeFrom (index : Nat) : Run σ Unit := do
  closeScopes ((← get).context.scopes.size - index)

end World

end DiceTome
