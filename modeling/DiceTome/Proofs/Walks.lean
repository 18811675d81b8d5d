import DiceTome.Evaluate
import DiceTome.Proofs.PrintedTokens

/-!
# Following an evaluation

The evaluation of an expression is made of a few kinds of steps: it asks what a name stands for, it
calls, assigns and defines, it throws dice for the operators, and it gathers the outcomes of its
parts. Whatever can be told of these steps, and from one step to the next, can be told of every
evaluation.

* `Account` is what is told of two steps side by side, and what it takes to tell it of a sequence.
* `Account.Covers` lists the steps that the evaluation of expressions in a scope is made of.
* `Account.Covers.evalWith`: an account that covers these steps covers the evaluation.
-/

namespace DiceTome

open World

/-- The values that an evaluation makes of the outcomes of some parts. -/
inductive Outcome.Makes (parts : List Outcome) : Value → Prop
  | empty : Makes parts .empty
  | part {o : Outcome} (h : o ∈ parts) : Makes parts o.value
  | list : Makes parts (.list (parts.map Outcome.value))

/-- The errors that an evaluation fails with by itself. -/
inductive EvalError.IsRefusal : EvalError → Prop
  | undefinedVariable (name : String) : IsRefusal (.undefinedVariable name)
  | invalidTarget (text : String) : IsRefusal (.invalidTarget text)
  | invalidParameter (callee text : String) : IsRefusal (.invalidParameter callee text)

/-- What is told of two steps side by side: of `x` and `y` with the outcomes `parts` at hand, when
every result `a` leaves the outcomes `rest a` at hand. -/
structure Account (σ τ : Type) where
  Holds : {α : Type} → List Outcome → Run σ α → Run τ α → (α → List Outcome) → Prop
  pure : ∀ {α : Type} (a : α) (rest : α → List Outcome), Holds (rest a) (pure a) (pure a) rest
  bind : ∀ {α β : Type} {parts : List Outcome} {x : Run σ α} {y : Run τ α}
    {between : α → List Outcome} {f : α → Run σ β} {g : α → Run τ β} {rest : β → List Outcome},
    Holds parts x y between → (∀ a, Holds (between a) (f a) (g a) rest) →
      Holds parts (x >>= f) (y >>= g) rest
  behind : ∀ {α : Type} {x : Run σ α} {y : Run τ α} {rest : α → List Outcome}
    (parts : List Outcome), Holds [] x y rest → Holds parts x y fun a => parts ++ rest a
  gather : ∀ {α : Type} {parts : List Outcome} {v : Value} {x : Run σ α} {y : Run τ α}
    {rest : α → List Outcome}, Outcome.Makes parts v → Holds [.gather v parts] x y rest →
      Holds parts x y rest

namespace Account

variable {σ τ : Type}

/-- A step behind an outcome, whose result is the result of both. -/
theorem behind_gathered (J : Account σ τ) {x : Run σ Outcome} {y : Run τ Outcome} (first : Outcome)
    (h : J.Holds [] x y fun o => [o]) :
    J.Holds [first] (do let last ← x; return .gather last.value [first, last])
      (do let last ← y; return .gather last.value [first, last]) fun o => [o] := by
  refine J.bind (J.behind [first] h) fun last => ?_
  exact J.gather (.part (by simp)) (J.pure _ fun o => [o])

/-- The account covers what the evaluation of expressions with parts in `p` does in a scope. -/
structure Covers [DiceSource σ] [DiceSource τ] (J : Account σ τ) (p : Expr → Prop)
    (call : CallRule σ) (call' : CallRule τ) (scope : Index) : Prop where
  literal : ∀ l, p (.literal l) →
    J.Holds [] (return { value := l.value }) (return { value := l.value }) fun o => [o]
  refuse : ∀ {α : Type} {err : EvalError} {rest : α → List Outcome}, err.IsRefusal →
    J.Holds [] (throw err) (throw err) rest
  value : ∀ n, J.Holds [] (ask (·.value? scope n)) (ask (·.value? scope n))
    fun found => found.toList.map fun v => { value := v }
  callable : ∀ n, J.Holds [] (ask (·.isCallable scope n)) (ask (·.isCallable scope n)) fun _ => []
  call : ∀ name parts, J.Holds parts (call scope name (parts.map Outcome.value))
    (call' scope name (parts.map Outcome.value)) fun result => parts ++ [result]
  assign : ∀ n (o : Outcome), p (.name n) →
    J.Holds [o] (setVariable scope n o.value) (setVariable scope n o.value) fun _ => [o]
  define : ∀ callee names body, (Expr.call callee (names.map .name)).All p → body.All p →
    J.Holds [] (defineFunction scope callee body names) (defineFunction scope callee body names)
      fun _ => []
  unary : ∀ op o, J.Holds [o] (onDice (Step.alone o (Outcome.unary op)))
    (onDice (Step.alone o (Outcome.unary op))) fun result => [result]
  binary : ∀ op l r, J.Holds [l, r] (onDice (Step.alone (.pair l r) (Outcome.binary op)))
    (onDice (Step.alone (.pair l r) (Outcome.binary op))) fun result => [result]
  -- Of a test only the log is left at hand, since its value may hold a roll that was thrown for it.
  test : ∀ o : Outcome, J.Holds [o] (onDice (o.through Outcome.asBool))
    (onDice (o.through Outcome.asBool)) fun tested => [{ tested.2 with value := .empty }]

end Account

namespace Expr

/-- The parameters of a definition are names, or the definition is refused. -/
theorem parameterNames_cases (callee : String) (args : List Expr) :
    (∃ names, parameterNames callee args = .ok names ∧ args = names.map .name) ∨
      ∃ err, parameterNames callee args = .error err ∧ err.IsRefusal := by
  induction args with
  | nil => exact .inl ⟨[], rfl, rfl⟩
  | cons e es ih =>
    cases e with
    | name n =>
      rw [parameterNames]
      obtain ⟨names, hnames, rfl⟩ | ⟨err, herr, hrefusal⟩ := ih
      · rw [hnames]
        exact .inl ⟨n :: names, rfl, rfl⟩
      · rw [herr]
        exact .inr ⟨err, rfl, hrefusal⟩
    | _ => exact .inr ⟨_, rfl, .invalidParameter _ _⟩

end Expr

namespace Account.Covers

variable {σ τ : Type} [DiceSource σ] [DiceSource τ] {J : Account σ τ} {p : Expr → Prop}
  {call : CallRule σ} {call' : CallRule τ} {scope : Index}

theorem evalName (h : J.Covers p call call' scope) (n : String) :
    J.Holds [] (Expr.evalName call scope n) (Expr.evalName call' scope n) fun o => [o] := by
  refine J.bind (h.value n) fun found => ?_
  cases found with
  | some v => exact J.pure _ fun o => [o]
  | none =>
    refine J.bind (h.callable n) fun callable => ?_
    cases callable with
    | true => exact h.call n []
    | false => exact h.refuse (.undefinedVariable n)

/-- An assignment to a variable or a function, or a failure. -/
theorem evalAssign (h : J.Covers p call call' scope) {lhs rhs : Expr}
    (hall : (Expr.binary .assign lhs rhs).All p)
    (hr : J.Holds [] (rhs.evalWith call scope) (rhs.evalWith call' scope) fun o => [o]) :
    J.Holds [] ((Expr.binary .assign lhs rhs).evalWith call scope)
      ((Expr.binary .assign lhs rhs).evalWith call' scope) fun o => [o] := by
  cases lhs with
  | name n =>
    simp only [Expr.evalWith]
    exact J.bind hr fun o => J.bind (h.assign n o hall.2.1) fun _ => J.pure o fun o => [o]
  | call callee args =>
    simp only [Expr.evalWith]
    obtain ⟨names, hnames, rfl⟩ | ⟨err, herr, hrefusal⟩ := Expr.parameterNames_cases callee args
    · rw [hnames]
      change J.Holds [] (do defineFunction scope callee rhs names; return ({} : Outcome))
        (do defineFunction scope callee rhs names; return ({} : Outcome)) _
      exact J.bind (h.define callee names rhs hall.2.1 hall.2.2) fun _ =>
        J.gather .empty (J.pure _ fun o => [o])
    · rw [herr]
      exact h.refuse hrefusal
  | _ =>
    simp only [Expr.evalWith]
    exact h.refuse (.invalidTarget _)

mutual

/-- What covers the steps of evaluations covers the evaluation of an expression. -/
theorem evalWith (h : J.Covers p call call' scope) : ∀ {e : Expr}, e.All p →
    J.Holds [] (e.evalWith call scope) (e.evalWith call' scope) fun o => [o]
  | .literal l, he => by
    simp only [Expr.evalWith]
    exact h.literal l he
  | .name n, _ => by
    simp only [Expr.evalWith]
    exact h.evalName n
  | .list items, he => by
    simp only [Expr.evalWith]
    exact J.bind (h.evalAll he.2) fun parts => J.gather .list (J.pure _ fun o => [o])
  | .call callee args, he => by
    simp only [Expr.evalWith]
    refine J.bind (h.evalAll he.2) fun parts => J.bind (h.call callee parts) fun result => ?_
    exact J.gather (.part (List.mem_append_right _ List.mem_cons_self)) (J.pure _ fun o => [o])
  | .binary op lhs rhs, he => by
    have hl := h.evalWith he.2.1
    have hr := h.evalWith he.2.2
    by_cases hassign : op = .assign
    · subst hassign
      exact h.evalAssign he hr
    by_cases hdiscard : op = .discard
    · subst hdiscard
      simp only [Expr.evalWith]
      exact J.bind hl fun left => J.behind_gathered left hr
    · rw [Expr.evalWith, Expr.evalWith]
      · exact J.bind hl fun left => J.bind (J.behind [left] hr) fun right => h.binary op left right
      all_goals simp [hassign, hdiscard]
  | .unary op operand, he => by
    simp only [Expr.evalWith]
    exact J.bind (h.evalWith he.2) fun part => h.unary op part
  | .ifThen condition consequent, he => by
    have hc := h.evalWith he.2.1
    have hx := h.evalWith he.2.2
    simp only [Expr.evalWith]
    refine J.bind hc fun test => J.bind (h.test test) fun tested => ?_
    obtain ⟨holds, test⟩ := tested
    cases holds with
    | true => exact J.behind_gathered { test with value := .empty } hx
    | false => exact J.gather .empty (J.pure _ fun o => [o])
  | .ifElse condition consequent alternative, he => by
    have hc := h.evalWith he.2.1
    have hx := h.evalWith he.2.2.1
    have hy := h.evalWith he.2.2.2
    simp only [Expr.evalWith]
    refine J.bind hc fun test => J.bind (h.test test) fun tested => ?_
    obtain ⟨holds, test⟩ := tested
    cases holds with
    | true => exact J.behind_gathered { test with value := .empty } hx
    | false => exact J.behind_gathered { test with value := .empty } hy

theorem evalAll (h : J.Covers p call call' scope) : ∀ {es : List Expr}, Expr.AllItems p es →
    J.Holds [] (Expr.evalAll call scope es) (Expr.evalAll call' scope es) fun os => os
  | [], _ => by
    simp only [Expr.evalAll]
    exact J.pure [] fun os => os
  | e :: es, he => by
    simp only [Expr.evalAll]
    refine J.bind (h.evalWith he.1) fun o => J.bind (J.behind [o] (h.evalAll he.2)) fun os => ?_
    exact J.pure (o :: os) fun os => os

end

end Account.Covers

end DiceTome
