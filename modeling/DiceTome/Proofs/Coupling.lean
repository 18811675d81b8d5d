import DiceTome.Proofs.Bindings

/-!
# Evaluations side by side

Two evaluations of one expression stay alike as long as everything they ask of their worlds is alike:
what names stand for, what calls give, what the dice show and what is bound.

* `Expr.Alike` lists what an evaluation asks of a world.
* `Expr.couples_evalWith`: evaluations that are alike in this give the same result and leave related
  worlds behind.
-/

namespace DiceTome

open Step World

variable {σ τ : Type}

/-- The answers are the same if the questions about the contexts have the same answer. -/
theorem World.couples_ask {R : World σ → World τ → Prop} {question : Context → Except EvalError α}
    (h : ∀ a b, R a b → question a.context = question b.context) :
    Couples R (ask question) (ask question) := by
  refine couples_get_bind fun a b hab => ?_
  rw [h a b hab]
  exact couples_ofExcept _

/-- The answers are the same, and steps that go on with a possible answer are alike. -/
theorem World.couples_ask_bind {R : World σ → World τ → Prop}
    {question : Context → Except EvalError α} {q : α → Prop} {f : α → Run σ β} {g : α → Run τ β}
    (h : ∀ a b, R a b → question a.context = question b.context)
    (hq : ∀ a b, R a b → ∀ x, question a.context = .ok x → q x)
    (hf : ∀ x, q x → Couples R (f x) (g x)) :
    Couples R (ask question >>= f) (ask question >>= g) := by
  intro a b hab
  have hrun : (ask question : Run σ α) a = (question a.context, a) := rfl
  have hrun' : (ask question : Run τ α) b = (question a.context, b) := by
    rw [h a b hab]
    rfl
  rw [run_bind, run_bind, hrun, hrun']
  cases hanswer : question a.context with
  | error err => exact ⟨rfl, hab⟩
  | ok x => exact hf x (hq a b hab x hanswer) a b hab

/-- Told of both steps: they give the same result on related worlds and leave related worlds behind,
whatever the outcomes at hand. -/
def Account.coupling (R : World σ → World τ → Prop) : Account σ τ where
  Holds _ x y _ := Couples R x y
  pure a _ := couples_pure a
  bind hx hf := hx.bind hf
  behind _ hx := hx
  gather _ hx := hx

namespace Expr

variable [DiceSource σ] [DiceSource τ]

/-- What the evaluation of expressions with parts in `p` asks of its world in a scope is alike in
related worlds. -/
structure Alike (R : World σ → World τ → Prop) (p : Expr → Prop) (call : CallRule σ)
    (call' : CallRule τ) (scope : Index) : Prop where
  value : ∀ n, Couples R (ask (·.value? scope n)) (ask (·.value? scope n))
  callable : ∀ n, Couples R (ask (·.isCallable scope n)) (ask (·.isCallable scope n))
  call : ∀ name args, Couples R (call scope name args) (call' scope name args)
  assign : ∀ n v, p (.name n) → Couples R (setVariable scope n v) (setVariable scope n v)
  define : ∀ callee names body, (Expr.call callee (names.map .name)).All p → body.All p →
    Couples R (defineFunction scope callee body names) (defineFunction scope callee body names)
  unary : ∀ op o, Couples R (onDice (alone o (Outcome.unary op)))
    (onDice (alone o (Outcome.unary op)))
  binary : ∀ op l r, Couples R (onDice (alone (.pair l r) (Outcome.binary op)))
    (onDice (alone (.pair l r) (Outcome.binary op)))
  test : ∀ o : Outcome, Couples R (onDice (o.through Outcome.asBool))
    (onDice (o.through Outcome.asBool))

variable {R : World σ → World τ → Prop} {p : Expr → Prop} {call : CallRule σ} {call' : CallRule τ}
  {scope : Index}

theorem Alike.covers (h : Alike R p call call' scope) :
    (Account.coupling R).Covers p call call' scope where
  literal _ _ := couples_pure _
  refuse _ := couples_throw _
  value := h.value
  callable := h.callable
  call name _ := h.call name _
  assign n o := h.assign n o.value
  define := h.define
  unary := h.unary
  binary := h.binary
  test := h.test

/-- Evaluations that are alike in what they ask of their worlds give the same result. -/
theorem couples_evalWith (h : Alike R p call call' scope) {e : Expr} (he : e.All p) :
    Couples R (e.evalWith call scope) (e.evalWith call' scope) :=
  h.covers.evalWith he

end Expr

end DiceTome
