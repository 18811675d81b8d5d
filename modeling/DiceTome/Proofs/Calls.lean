import DiceTome.Proofs.Coupling
import DiceTome.Proofs.ScopeTree

/-!
# What a call does

A call opens a scope below the one its function is bound in, binds the arguments there, evaluates
the body and closes the scope again.

* `World.run_pushScope` and `World.run_closeFrom` say what opening and closing a scope does to a
  world whose scopes lie in earlier ones.
* `Function.couples_invoke`: two calls of one function are alike if their bodies are, in worlds that
  are related while the scope is open.
-/

namespace DiceTome

open Step World

variable {σ τ : Type}

namespace World

/-- The world with a new scope in the scope `j`. -/
def opened (w : World σ) (j : Nat) (name : String) : World σ :=
  { w with
    context := w.context.opened j name
    journal := w.journal.push (.pushed w.context.scopes.size name j) }

/-- The world without its last scope, whose name is given. -/
def closed (w : World σ) (name : String) : World σ :=
  { w with
    context := dropInnermost w.context
    journal := w.journal.push (.popped (w.context.scopes.size - 1) name) }

theorem run_ask (question : Context → Except EvalError α) (w : World σ) :
    ask question w = (question w.context, w) := rfl

theorem run_pushScope {w : World σ} {j : Nat} (hj : j < w.context.scopes.size) (name : String) :
    pushScope (j : Index) name w = (.ok w.context.scopes.size, w.opened j name) := by
  have hscope : ∃ s, Context.scope ⟨w.context.scopes.push { parent := some (j : Index), name }⟩
      (j : Index) = .ok s := by
    have hlt : j < (w.context.scopes.push { parent := some (j : Index), name }).size := by
      rw [Array.size_push]
      exact Nat.lt_succ_of_lt hj
    exact ⟨_, by rw [Context.scope, Context.scope?_natCast, Array.getElem?_eq_getElem hlt]⟩
  obtain ⟨s, hs⟩ := hscope
  simp only [pushScope, run_bind, run_get, run_modify, run_ask, hs]
  rfl

theorem run_closeInnermost {w : World σ} {k j : Nat} {name : String}
    (h : w.context.EndsWith k j name) : closeInnermost w = (.ok (), w.closed name) := by
  obtain ⟨hsize, hj, t, ht, hparent, rfl⟩ := h
  have hback : w.context.scopes.back? = some t := by
    rw [Array.back?_eq_getElem?, hsize]
    exact ht
  have hstray : innermostIsStray w.context = false := by
    simp [innermostIsStray, hback, hparent, hsize, hj]
  simp only [closeInnermost, run_bind, run_get, run_modify, hstray, hback]
  rfl

theorem run_closeFrom {w : World σ} {k j : Nat} {name : String} (h : w.context.EndsWith k j name) :
    closeFrom k w = (.ok (), w.closed name) := by
  have hone : closeFrom k w = (closeScopes (w.context.scopes.size - k) : Run σ Unit) w := by
    simp only [closeFrom, run_bind, run_get]
  rw [hone, h.size_eq, Nat.add_sub_cancel_left]
  simp only [closeScopes, run_bind, run_closeInnermost h]
  rfl

/-- A scope is closed whether the step before fails or not. -/
theorem run_andThen_closeFrom {step : Run σ α} {w : World σ} {k j : Nat} {name : String}
    (h : (step w).2.context.EndsWith k j name) :
    andThen (closeFrom k) step w = ((step w).1, (step w).2.closed name) := by
  rw [run_andThen, run_closeFrom h]

end World

/-! ## Calling a function that has been found -/

/-- Calls a function under a name. -/
def Function.invoke (enter : Function → Nat → Run σ Outcome) (f : Function) (name : String)
    (args : List Value) : Run σ Outcome := do
  if args.length ≠ f.parameters.length then
    throw (.argumentCount name f.parameters.length args.length)
  if maxCallDepth < (← get).context.scopes.size then throw (.callDepth name)
  World.record (.called name args)
  let child ← World.pushScope f.scope name
  Step.andThen (World.closeFrom child) do
    bindArguments child f.parameters args
    enter f child

theorem callFunction_eq [DiceSource σ] (enter : Function → Nat → Run σ Outcome) (scope : Index)
    (name : String) (args : List Value) :
    callFunction enter scope name args = (do
      match ← World.ask (·.function? scope name) with
      | none => callBuiltin name args
      | some f => f.invoke enter name args) := rfl

theorem Function.run_invoke {enter : Function → Nat → Run σ Outcome} {f : Function} {name : String}
    {args : List Value} {w : World σ} {j : Nat} (hscope : f.scope = (j : Index))
    (hj : j < w.context.scopes.size) (hargs : args.length = f.parameters.length)
    (hdepth : w.context.scopes.size ≤ maxCallDepth) :
    f.invoke enter name args w =
      Step.andThen (World.closeFrom w.context.scopes.size)
        (do bindArguments w.context.scopes.size f.parameters args; enter f w.context.scopes.size)
        (World.opened { w with journal := w.journal.push (.called name args) } j name) := by
  have hpush := World.run_pushScope (w := { w with journal := w.journal.push (.called name args) })
    hj name
  simp only [invoke, hscope, if_neg (fun h : args.length ≠ _ => h hargs), run_bind,
    run_get, if_neg (Nat.not_lt.mpr hdepth), World.record, run_modify, hpush]

/-- A call leaves the world alone if the number of arguments is wrong or too many scopes are open. -/
theorem Function.run_invoke_refused (enter : Function → Nat → Run σ Outcome) {f : Function}
    {name : String} {args : List Value} {w : World σ}
    (h : args.length ≠ f.parameters.length ∨ maxCallDepth < w.context.scopes.size) :
    f.invoke enter name args w =
      (.error (if args.length ≠ f.parameters.length then
        .argumentCount name f.parameters.length args.length else .callDepth name), w) := by
  by_cases hargs : args.length ≠ f.parameters.length
  · simp only [invoke, if_pos hargs]
    rfl
  · have hdepth : maxCallDepth < w.context.scopes.size := h.resolve_left hargs
    simp only [invoke, if_neg hargs, run_bind, run_get, if_pos hdepth]
    rfl

/-- Two calls of one function are alike if their bodies are, in worlds that are related while the
scope is open and are so again when it has been closed. -/
theorem Function.couples_invoke {R : World σ → World τ → Prop} {f : Function} {j : Nat}
    {enter : Function → Nat → Run σ Outcome} {enter' : Function → Nat → Run τ Outcome}
    {name : String} {args : List Value} (hscope : f.scope = (j : Index))
    (hsize : ∀ a b, R a b → b.context.scopes.size = a.context.scopes.size)
    (hj : ∀ a b, R a b → j < a.context.scopes.size)
    (hbody : ∀ a b, R a b → ∃ R' : World σ → World τ → Prop,
      R' (World.opened { a with journal := a.journal.push (.called name args) } j name)
        (World.opened { b with journal := b.journal.push (.called name args) } j name) ∧
      Couples R'
        (do bindArguments a.context.scopes.size f.parameters args; enter f a.context.scopes.size)
        (do bindArguments a.context.scopes.size f.parameters args; enter' f a.context.scopes.size) ∧
      ∀ a' b', R' a' b' → a'.context.EndsWith a.context.scopes.size j name ∧
        b'.context.EndsWith a.context.scopes.size j name ∧ R (a'.closed name) (b'.closed name)) :
    Couples R (f.invoke enter name args) (f.invoke enter' name args) := by
  intro a b hab
  have hsame := hsize a b hab
  by_cases hrefused : args.length ≠ f.parameters.length ∨ maxCallDepth < a.context.scopes.size
  · rw [run_invoke_refused enter hrefused, run_invoke_refused enter' (by rw [hsame]; exact hrefused)]
    exact ⟨rfl, hab⟩
  · obtain ⟨hargs, hdepth⟩ := not_or.mp hrefused
    obtain ⟨R', hopened, hcouples, hclosed⟩ := hbody a b hab
    have hlt := hj a b hab
    rw [run_invoke hscope hlt (Decidable.not_not.mp hargs) (Nat.not_lt.mp hdepth),
      run_invoke hscope (hsame ▸ hlt) (Decidable.not_not.mp hargs) (hsame ▸ Nat.not_lt.mp hdepth),
      hsame]
    obtain ⟨hresult, hrel⟩ := hcouples _ _ hopened
    obtain ⟨hend, hend', hback⟩ := hclosed _ _ hrel
    rw [World.run_andThen_closeFrom hend, World.run_andThen_closeFrom hend']
    exact ⟨hresult, hback⟩

/-! ## Steps that are made of others -/

namespace World

variable {R : World σ → World τ → Prop}

theorem couples_bindArguments_of {scope : Index} {names : List String}
    (hbind : ∀ n ∈ names, ∀ v, Couples R (bind scope n (.value v)) (bind scope n (.value v)))
    (args : List Value) :
    Couples R (bindArguments scope names args) (bindArguments scope names args) := by
  induction names generalizing args with
  | nil => exact couples_pure _
  | cons n names ih =>
    obtain ⟨hn, hnames⟩ := List.forall_mem_cons.mp hbind
    cases args with
    | nil => exact couples_pure _
    | cons v args => exact (hn v).bind fun _ => ih hnames args

/-- Everything that opening and closing scopes is made of is alike in related worlds. -/
structure OpenAlike (R : World σ → World τ → Prop) : Prop where
  size_eq : ∀ a b, R a b → b.context.scopes.size = a.context.scopes.size
  record : ∀ e, Couples R (record e) (record e)
  bind : ∀ scope n v, Couples R (bind scope n (.value v)) (bind scope n (.value v))
  push : ∀ parent name, Couples R (pushScope parent name) (pushScope parent name)
  close : Couples R closeInnermost closeInnermost

theorem OpenAlike.closeScopes (h : OpenAlike R) (n : Nat) :
    Couples R (closeScopes n) (closeScopes n) := by
  induction n with
  | zero => exact couples_pure _
  | succ n ih => exact h.close.bind fun _ => ih

theorem OpenAlike.closeFrom (h : OpenAlike R) (index : Nat) :
    Couples R (closeFrom index) (closeFrom index) := by
  refine couples_get_bind fun a b hab => ?_
  rw [h.size_eq a b hab]
  exact h.closeScopes _

theorem OpenAlike.bindArguments (h : OpenAlike R) (scope : Index) (names : List String)
    (args : List Value) :
    Couples R (bindArguments scope names args) (bindArguments scope names args) :=
  couples_bindArguments_of (fun n _ => h.bind scope n) args

/-- Calls of functions with the same parameters in the same scope, with bodies that are alike. -/
theorem OpenAlike.invoke (h : OpenAlike R) {enter : Function → Nat → Run σ Outcome}
    {enter' : Function → Nat → Run τ Outcome} {f f' : Function}
    (hparameters : f'.parameters = f.parameters) (hscope : f'.scope = f.scope)
    (henter : ∀ child, Couples R (enter f child) (enter' f' child)) (name : String)
    (args : List Value) : Couples R (f.invoke enter name args) (f'.invoke enter' name args) := by
  unfold Function.invoke
  rw [hparameters, hscope]
  by_cases hargs : args.length ≠ f.parameters.length
  · simp only [if_pos hargs]
    exact couples_throw_bind _
  · simp only [if_neg hargs]
    refine couples_get_bind fun a b hab => ?_
    rw [h.size_eq a b hab]
    by_cases hdepth : maxCallDepth < a.context.scopes.size
    · simp only [if_pos hdepth]
      exact couples_throw_bind _
    · simp only [if_neg hdepth]
      refine (h.record _).bind fun _ => (h.push _ _).bind fun child => ?_
      refine couples_andThen ?_ (h.closeFrom child)
      exact (h.bindArguments child _ args).bind fun _ => henter child

variable [DiceSource σ] [DiceSource τ]

theorem couples_callBuiltin_of {name : String} {args : List Value}
    (hcall : Couples R (onDice (Builtin.call name args)) (onDice (Builtin.call name args)))
    (hprint : ∀ line, Couples R (printLine line) (printLine line)) :
    Couples R (callBuiltin name args) (callBuiltin name args) := by
  refine hcall.bind fun reply => ?_
  obtain ⟨result, printed⟩ := reply
  cases printed with
  | none => exact couples_pure _
  | some line => exact (hprint line).bind fun _ => couples_pure _

/-- How many levels are left is a question of how many scopes are open. -/
theorem couples_evalArena_of {a : Arena} {scope : Index}
    (hsize : ∀ w w', R w w' → w'.context.scopes.size = w.context.scopes.size)
    (heval : ∀ e, a.expr? = some e → ∀ level,
      Couples R (evalWithin level scope e) (evalWithin level scope e)) :
    Couples R (evalArena a scope) (evalArena a scope) := by
  unfold evalArena
  cases he : a.expr? with
  | none => exact couples_pure _
  | some e =>
    refine couples_get_bind fun w w' h => ?_
    simp only [levelsLeft, hsize w w' h]
    exact heval e he _

end World

end DiceTome
