import DiceTome.Proofs.Calls
import DiceTome.Proofs.ValueText

/-!
# Failures of evaluation

An evaluation may fail because of what the expression asks for. It must not fail because of the
scopes: that a scope is missing, that the root is to be closed or that a scope is not the last one
is the business of the program and not of the player.

* `Step.Guards`: a step keeps an invariant, and no failure of it is about scopes.
* `Outcome.spares_unary`, `Outcome.spares_binary` and `Builtin.spares_call`: operators and builtin
  functions know no scopes.
* `Expr.guards_evalWith`: an evaluation does not fail because of scopes if nothing that it asks of
  the world does.
-/

namespace DiceTome

/-- Whether an error is about scopes. -/
def EvalError.isScopeFault : EvalError → Bool
  | noSuchScope | rootScopePopped | notInnermost _ => true
  | _ => false

/-- A failure is not about scopes. -/
def Proper (x : Except EvalError α) : Prop :=
  ∀ err, x = .error err → err.isScopeFault = false

theorem proper_ok (a : α) : Proper (.ok a) :=
  nofun

theorem proper_error {err : EvalError} (h : err.isScopeFault = false) :
    Proper (.error err : Except EvalError α) := by
  rintro _ ⟨⟩
  exact h

theorem Proper.bind {x : Except EvalError α} {f : α → Except EvalError β} (hx : Proper x)
    (hf : ∀ a, Proper (f a)) : Proper (x >>= f) := by
  cases x with
  | error err => exact proper_error (hx err rfl)
  | ok a => exact hf a

/-- Whether an error says that something cannot be converted. -/
def EvalError.isUnconverted : EvalError → Bool
  | notConvertible .. | integerTooLarge => true
  | _ => false

/-- A failure says that something cannot be converted. -/
def OnlyUnconverted (x : Except EvalError α) : Prop :=
  ∀ err, x = .error err → err.isUnconverted = true

namespace OnlyUnconverted

theorem ok (a : α) : OnlyUnconverted (.ok a) :=
  nofun

theorem error {err : EvalError} (h : err.isUnconverted = true) :
    OnlyUnconverted (.error err : Except EvalError α) := by
  rintro _ ⟨⟩
  exact h

theorem bind {x : Except EvalError α} {f : α → Except EvalError β} (hx : OnlyUnconverted x)
    (hf : ∀ a, OnlyUnconverted (f a)) : OnlyUnconverted (x >>= f) := by
  cases x with
  | error err => exact error (hx err rfl)
  | ok a => exact hf a

theorem map {x : Except EvalError α} (hx : OnlyUnconverted x) (f : α → β) :
    OnlyUnconverted (x.map f) := by
  cases x with
  | error err => exact error (hx err rfl)
  | ok a => exact ok _

theorem proper {x : Except EvalError α} (hx : OnlyUnconverted x) : Proper x := by
  intro err herr
  have hkind := hx err herr
  cases err <;> first | rfl | cases hkind

end OnlyUnconverted

/-! ## Steps -/

namespace Step

/-- The step keeps the invariant, and no failure of it is about scopes. -/
def Guards (inv : s → Prop) (step : Step s α) : Prop :=
  ∀ st, inv st → inv (step st).2 ∧ Proper (step st).1

variable {inv : s → Prop}

theorem guards_pure (a : α) : Guards inv (pure a) :=
  fun _ hst => ⟨hst, proper_ok a⟩

theorem guards_throw {err : EvalError} (h : err.isScopeFault = false) :
    Guards inv (throw err : Step s α) :=
  fun _ hst => ⟨hst, proper_error h⟩

theorem guards_throw_bind {err : EvalError} (h : err.isScopeFault = false) {f : α → Step s β} :
    Guards inv (throw err >>= f) :=
  fun _ hst => ⟨hst, proper_error h⟩

theorem guards_ofExcept {result : Except EvalError α} (h : Proper result) :
    Guards inv (ofExcept result) :=
  fun _ hst => ⟨hst, h⟩

theorem Guards.bind {x : Step s α} {f : α → Step s β} (hx : Guards inv x)
    (hf : ∀ a, Guards inv (f a)) : Guards inv (x >>= f) := by
  intro st hst
  obtain ⟨hinv, hproper⟩ := hx st hst
  rw [run_bind]
  cases hrun : x st with
  | mk result st' =>
    rw [hrun] at hinv hproper
    cases result with
    | error err => exact ⟨hinv, proper_error (hproper err rfl)⟩
    | ok a => exact hf a st' hinv

/-- A step that first looks at the state. -/
theorem guards_get_bind {f : s → Step s α} (h : ∀ st, inv st → Guards inv (f st)) :
    Guards inv (get >>= f) := by
  intro st hst
  rw [run_bind, run_get]
  exact h st hst st hst

theorem guards_modify {change : s → s} (h : ∀ st, inv st → inv (change st)) :
    Guards inv (modify change : Step s Unit) :=
  fun st hst => ⟨h st hst, proper_ok ()⟩

/-- A step that keeps an invariant does the same on both sides of a state. -/
theorem Guards.couples_self {x : Step s α} (h : Guards inv x) :
    Couples (fun a b => a = b ∧ inv a) x x := by
  rintro a _ ⟨rfl, ha⟩
  exact ⟨rfl, rfl, (h a ha).1⟩

/-- A step without an invariant. -/
abbrev Spares (step : Step s α) : Prop :=
  Guards (fun _ => True) step

theorem spares_get : Spares (get : Step s s) :=
  fun st _ => ⟨trivial, proper_ok st⟩

theorem spares_modify (change : s → s) : Spares (modify change : Step s Unit) :=
  guards_modify fun _ _ => trivial

theorem spares_modifyGet (f : s → α × s) : Spares (modifyGet f : Step s α) :=
  fun _ _ => ⟨trivial, proper_ok _⟩

theorem Spares.within {view : s → t} {update : t → s → s} {step : Step t α} (h : Spares step) :
    Spares (within view update step) :=
  fun st _ => ⟨trivial, (h (view st) trivial).2⟩

theorem Spares.alone {step : Step (t × s) α} (h : Spares step) (part : t) :
    Spares (alone part step) :=
  fun st _ => ⟨trivial, (h (part, st) trivial).2⟩

end Step

open Step World

/-! ## Conversions -/

namespace Value

theorem onlyUnconverted_floatOfInt (n : Int) : OnlyUnconverted (floatOfInt n) := by
  unfold floatOfInt
  split
  · exact .ok _
  · exact .error rfl

mutual

theorem onlyUnconverted_asDecimal : ∀ v : Value, OnlyUnconverted v.asDecimal
  | decimal _ => .ok _
  | natural _ | outcome _ | rolls _ => by
    rw [asDecimal]
    exact (onlyUnconverted_floatOfInt _).map _
  | list items => by
    rw [asDecimal]
    exact onlyUnconverted_sumDecimals items .nothing
  | bool _ | roll _ | string _ | empty => .error rfl

theorem onlyUnconverted_sumDecimals : ∀ (vs : List Value) (total : Total),
    OnlyUnconverted (sumDecimals total vs)
  | [], _ => .ok _
  | v :: vs, total =>
    (onlyUnconverted_asDecimal v).bind fun x => onlyUnconverted_sumDecimals vs (total.add x)

end

mutual

theorem onlyUnconverted_asNatural : ∀ v : Value, OnlyUnconverted v.asNatural
  | natural _ | outcome _ | rolls _ => .ok _
  | decimal x => by
    rw [asNatural]
    split
    · exact .ok _
    · exact .error rfl
  | list items => by
    rw [asNatural]
    exact onlyUnconverted_sumNaturals items 0
  | bool _ | roll _ | string _ | empty => .error rfl

theorem onlyUnconverted_sumNaturals : ∀ (vs : List Value) (total : Int),
    OnlyUnconverted (sumNaturals total vs)
  | [], _ => .ok _
  | v :: vs, total =>
    (onlyUnconverted_asNatural v).bind fun n => onlyUnconverted_sumNaturals vs (total + n)

end

theorem onlyUnconverted_asBool (v : Value) : OnlyUnconverted v.asBool := by
  cases v with
  | roll => exact .error rfl
  | _ => exact .ok _

theorem onlyUnconverted_asRolls (v : Value) : OnlyUnconverted v.asRolls := by
  cases v with
  | rolls | outcome => exact .ok _
  | _ => exact .error rfl

theorem onlyUnconverted_asList (v : Value) : OnlyUnconverted v.asList := by
  cases v with
  | list | rolls | outcome => exact .ok _
  | _ => exact .error rfl

theorem proper_sameNumber {a b : Except EvalError Float} (ha : Proper a) (hb : Proper b) :
    Proper (sameNumber a b) :=
  ha.bind fun _ => hb.bind fun _ => proper_ok _

theorem proper_allEqual {xs ys : List Value} (h : ∀ x ∈ xs, ∀ y, Proper (x.equals y)) :
    Proper (allEqual xs ys) := by
  induction xs generalizing ys with
  | nil =>
    rw [allEqual]
    · exact proper_ok _
    · nofun
  | cons x xs ih =>
    cases ys with
    | nil =>
      rw [allEqual]
      · exact proper_ok _
      · nofun
    | cons y ys =>
      rw [allEqual]
      refine (h x List.mem_cons_self y).bind fun same => ?_
      split
      · exact ih fun x hx => h x (List.mem_cons_of_mem _ hx)
      · exact proper_ok _

theorem proper_equals (v v' : Value) : Proper (v.equals v') := by
  induction v generalizing v' with
  | list xs ih =>
    cases v' with
    | list ys =>
      rw [equals]
      split
      · exact proper_allEqual ih
      · exact proper_ok _
    | _ => exact proper_ok _
  | natural m =>
    cases v' with
    | natural n =>
      exact proper_sameNumber (onlyUnconverted_floatOfInt m).proper
        (onlyUnconverted_floatOfInt n).proper
    | decimal y => exact proper_sameNumber (onlyUnconverted_floatOfInt m).proper (proper_ok y)
    | _ => exact proper_ok _
  | decimal x =>
    cases v' with
    | natural n => exact proper_sameNumber (proper_ok x) (onlyUnconverted_floatOfInt n).proper
    | _ => exact proper_ok _
  | _ => cases v' <;> exact proper_ok _

end Value

/-! ## Dice, operators and builtin functions -/

theorem Roll.spares_throw [DiceSource σ] (r : Roll) : Spares (r.throw : Step σ Rolled) := by
  by_cases hdie : r.die < 1
  · simp only [Roll.throw, if_pos hdie]
    exact guards_throw_bind rfl
  · by_cases hmany : maxDice < r.count
    · simp only [Roll.throw, if_neg hdie, if_pos hmany]
      exact guards_throw_bind rfl
    · simp only [Roll.throw, if_neg hdie, if_neg hmany]
      exact (spares_modifyGet _).bind fun _ => guards_pure _

namespace Value

variable {σ : Type} [DiceSource σ]

mutual

theorem spares_resolve (deep : Bool) : ∀ v : Value,
    Spares (v.resolve deep : Step (List Rolled × σ) Value)
  | roll r => by
    rw [resolve]
    exact (Spares.within r.spares_throw).bind fun _ => (spares_modify _).bind fun _ => guards_pure _
  | list items => by
    rw [resolve]
    split
    · exact (spares_resolveAll deep items).bind fun _ => guards_pure _
    · exact guards_pure _
  | bool _ | decimal _ | natural _ | outcome _ | rolls _ | string _ | empty => guards_pure _

theorem spares_resolveAll (deep : Bool) : ∀ vs : List Value,
    Spares (resolveAll deep vs : Step (List Rolled × σ) (List Value))
  | [] => guards_pure _
  | v :: vs => by
    rw [resolveAll]
    exact (spares_resolve deep v).bind fun _ => (spares_resolveAll deep vs).bind fun _ =>
      guards_pure _

end

end Value

namespace Outcome

variable {σ : Type}

theorem spares_carry (v : Value) : Spares (carry v : Step (Outcome × σ) Outcome) :=
  spares_get.bind fun _ => guards_pure _

theorem spares_merge (v : Value) : Spares (Operands.merge v : Step (Operands × σ) Outcome) :=
  spares_get.bind fun _ => guards_pure _

theorem spares_flagged (set : Roll → Roll) : Spares (flagged set : Step (Outcome × σ) Outcome) := by
  refine spares_get.bind fun st => ?_
  split
  · exact spares_carry _
  · exact guards_throw rfl

theorem spares_through {step : Step (Outcome × σ) α} (h : Spares step) (o : Outcome) :
    Spares (o.through step) := by
  intro dice _
  have hproper := (h (o, dice) trivial).2
  refine ⟨trivial, ?_⟩
  simp only [through, ExceptT.run]
  cases hrun : step (o, dice) with
  | mk result st =>
    rw [hrun] at hproper
    cases result with
    | error err => exact proper_error (hproper err rfl)
    | ok a => exact proper_ok _

variable [DiceSource σ]

theorem spares_resolve (deep : Bool) : Spares (resolve deep : Step (Outcome × σ) Value) :=
  spares_get.bind fun st => (Spares.within (st.1.value.spares_resolve deep)).bind fun _ =>
    (spares_modify _).bind fun _ => guards_pure _

theorem spares_asDecimal : Spares (asDecimal : Step (Outcome × σ) Total) :=
  (spares_resolve true).bind fun v => guards_ofExcept v.onlyUnconverted_asDecimal.proper

theorem spares_asNatural : Spares (asNatural : Step (Outcome × σ) Int) :=
  (spares_resolve true).bind fun v => guards_ofExcept v.onlyUnconverted_asNatural.proper

theorem spares_asBool : Spares (asBool : Step (Outcome × σ) Bool) :=
  (spares_resolve false).bind fun v => guards_ofExcept v.onlyUnconverted_asBool.proper

theorem spares_asString : Spares (asString : Step (Outcome × σ) String) :=
  (spares_resolve false).bind fun _ => guards_pure _

theorem spares_faces : Spares (faces : Step (Outcome × σ) (List Int)) :=
  (spares_resolve false).bind fun v => guards_ofExcept v.onlyUnconverted_asRolls.proper

theorem spares_resolved (o : Outcome) : Spares (o.resolved : Step σ Outcome) :=
  (spares_through (spares_resolve false) o).bind fun _ => guards_pure _

/-- The operators of one operand. -/
theorem spares_unary (op : UnaryOp) : Spares (unary op : Step (Outcome × σ) Outcome) := by
  cases op with
  | neg => exact spares_asDecimal.bind fun _ => spares_carry _
  | not => exact spares_asBool.bind fun _ => spares_carry _
  | sort => exact spares_faces.bind fun _ => spares_carry _
  | advantage | disadvantage => exact spares_flagged _

theorem proper_calculate (op : BinaryOp) (f : Float → Float → Float) (a b : Total) :
    Proper (calculate op f a b) := by
  unfold calculate
  split
  · exact proper_error rfl
  · dsimp only
    split
    · exact proper_ok _
    · exact proper_error rfl

theorem spares_arithmetic (op : BinaryOp) (f : Float → Float → Float) :
    Spares (arithmetic op f : Step (Operands × σ) Outcome) :=
  (Spares.within spares_asDecimal).bind fun a => (Spares.within spares_asDecimal).bind fun b =>
    (guards_ofExcept (proper_calculate op f a b)).bind fun _ => spares_merge _

theorem spares_compare (f : Float → Float → Bool) :
    Spares (compare f : Step (Operands × σ) Outcome) :=
  (Spares.within spares_asDecimal).bind fun _ => (Spares.within spares_asDecimal).bind fun _ =>
    spares_merge _

theorem spares_connective (f : Bool → Bool → Bool) :
    Spares (connective f : Step (Operands × σ) Outcome) :=
  (Spares.within spares_asBool).bind fun _ => (Spares.within spares_asBool).bind fun _ =>
    spares_merge _

theorem spares_concat : Spares (concat : Step (Operands × σ) Outcome) :=
  (Spares.within spares_asString).bind fun _ => (Spares.within spares_asString).bind fun _ =>
    spares_merge _

/-- The operators of two operands. -/
theorem spares_binary (op : BinaryOp) : Spares (binary op : Step (Operands × σ) Outcome) := by
  cases op with
  | add =>
    refine spares_get.bind fun st => ?_
    split
    · exact spares_concat
    · exact spares_arithmetic _ _
  | sub | mul | div | pow => exact spares_arithmetic _ _
  | and | or => exact spares_connective _
  | equal =>
    exact spares_get.bind fun st =>
      (guards_ofExcept (Value.proper_equals _ _)).bind fun _ => spares_merge _
  | greater | less | greaterEqual | lessEqual =>
    simp only [binary]
    exact spares_compare _
  | keep =>
    exact (Spares.within spares_faces).bind fun _ => (Spares.within spares_asNatural).bind fun _ =>
      spares_merge _
  | discard | assign => exact spares_get.bind fun _ => spares_merge _

end Outcome

namespace Builtin

variable {σ : Type} [DiceSource σ]

theorem proper_integerOf (round : Decimal.Dyadic → Int) (x : Float) : Proper (integerOf round x) := by
  unfold integerOf
  split
  · exact proper_ok _
  · refine proper_error ?_
    split <;> rfl

theorem proper_roundHalfAway (x : Float) : Proper (roundHalfAway x) :=
  (proper_integerOf _ _).bind fun _ => proper_ok _

theorem spares_rounding {round : Float → Except EvalError Int} (h : ∀ x, Proper (round x))
    (o : Outcome) : Spares (rounding round o : Step σ Reply) :=
  (Outcome.spares_through Outcome.spares_asDecimal o).bind fun _ =>
    (guards_ofExcept (h _)).bind fun _ => guards_pure _

theorem proper_rollOf (v : Value) : Proper (rollOf v) := by
  cases v with
  | roll | outcome => exact proper_ok _
  | _ => exact proper_error rfl

theorem proper_indexOf (index : Int) (length : Nat) : Proper (indexOf index length) := by
  unfold indexOf
  split
  · exact proper_ok _
  · exact proper_error rfl

theorem spares_decimalsOf (os : List Outcome) :
    Spares (decimalsOf os : Step σ (List Float × List Outcome)) := by
  induction os with
  | nil => exact guards_pure _
  | cons o os ih =>
    exact (Outcome.spares_through Outcome.spares_asDecimal o).bind fun _ => ih.bind fun _ =>
      guards_pure _

theorem spares_stringsOf (os : List Outcome) :
    Spares (stringsOf os : Step σ (List String × List Outcome)) := by
  induction os with
  | nil => exact guards_pure _
  | cons o os ih =>
    exact (Outcome.spares_through Outcome.spares_asString o).bind fun _ => ih.bind fun _ =>
      guards_pure _

theorem proper_spread? (args : List Outcome) : Proper (spread? args) := by
  unfold spread?
  split
  · dsimp only
    split
    · exact proper_error rfl
    · exact proper_ok _
    · exact proper_ok _
  · exact proper_ok _

theorem spares_resolveLone (args : List Outcome) :
    Spares (resolveLone args : Step σ (List Outcome)) := by
  unfold resolveLone
  split
  · exact (Outcome.spares_through (Outcome.spares_resolve true) _).bind fun _ => guards_pure _
  · exact guards_pure _

theorem spares_extreme (better : Float → Float → Bool) (args : List Outcome) :
    Spares (extreme better args : Step σ Reply) := by
  refine (spares_resolveLone args).bind fun args => ?_
  refine (guards_ofExcept (proper_spread? args)).bind fun items => ?_
  cases items with
  | some items => exact (spares_decimalsOf items).bind fun _ => guards_pure _
  | none => exact (spares_decimalsOf args).bind fun _ => guards_pure _

theorem spares_run (f : Builtin) (args : List Outcome) : Spares (f.run args : Step σ Reply) := by
  have hresolve : ∀ o : Outcome, Spares (o.through Outcome.resolve : Step σ (Value × Outcome)) :=
    Outcome.spares_through (Outcome.spares_resolve false)
  have hnatural : ∀ o : Outcome, Spares (o.through Outcome.asNatural : Step σ (Int × Outcome)) :=
    Outcome.spares_through Outcome.spares_asNatural
  unfold run
  split
  · exact spares_rounding (proper_integerOf _) _
  · exact spares_rounding (proper_integerOf _) _
  · exact spares_rounding proper_roundHalfAway _
  · split
    · exact guards_pure _
    · exact (Outcome.spares_through Outcome.spares_asDecimal _).bind fun _ => guards_pure _
  · exact spares_extreme _ _
  · exact spares_extreme _ _
  · exact (guards_ofExcept (proper_rollOf _)).bind fun _ => guards_pure _
  · exact (guards_ofExcept (proper_rollOf _)).bind fun _ => guards_pure _
  · refine (hresolve _).bind fun reply => ?_
    obtain ⟨v, x⟩ := reply
    cases v with
    | string s => exact guards_pure _
    | _ =>
      exact (guards_ofExcept (Value.onlyUnconverted_asList _).proper).bind fun _ => guards_pure _
  · refine (hresolve _).bind fun reply => ?_
    refine (guards_ofExcept (Value.onlyUnconverted_asList _).proper).bind fun values => ?_
    refine (hnatural _).bind fun index => ?_
    exact (guards_ofExcept (proper_indexOf _ _)).bind fun _ => guards_pure _
  · refine (hresolve _).bind fun reply => ?_
    refine (guards_ofExcept (Value.onlyUnconverted_asList _).proper).bind fun values => ?_
    refine (hnatural _).bind fun index => ?_
    exact (guards_ofExcept (proper_indexOf _ _)).bind fun _ => guards_pure _
  · exact (spares_stringsOf _).bind fun _ => guards_pure _
  · exact guards_throw rfl

/-- The builtin functions. -/
theorem spares_call (name : String) (args : List Value) :
    Spares (call name args : Step σ (Outcome × Option String)) := by
  unfold call
  split
  · exact guards_throw rfl
  · split
    · exact (spares_run _ _).bind fun _ => guards_pure _
    · exact guards_throw rfl

end Builtin

/-! ## Evaluations -/

namespace World

variable {σ : Type} {inv : World σ → Prop}

/-- A question that has an answer, and steps that go on with a possible answer. -/
theorem guards_ask_bind {question : Context → Except EvalError α} {q : α → Prop}
    {f : α → Run σ β} (h : ∀ w, inv w → ∃ x, question w.context = .ok x ∧ q x)
    (hf : ∀ x, q x → Guards inv (f x)) : Guards inv (ask question >>= f) := by
  intro w hw
  obtain ⟨x, hx, hq⟩ := h w hw
  rw [run_bind, run_ask, hx]
  exact hf x hq w hw

theorem guards_onDice (hdice : ∀ w dice, inv w → inv { w with dice }) {step : Step σ α}
    (h : Spares step) : Guards inv (onDice step) :=
  fun w hw => ⟨hdice w _ hw, (h w.dice trivial).2⟩

end World

theorem EvalError.IsRefusal.isScopeFault {err : EvalError} (h : err.IsRefusal) :
    err.isScopeFault = false := by
  cases h <;> rfl

/-- Told of the first step alone: it keeps the invariant and does not fail because of scopes. -/
def Account.guarding {σ : Type} (inv : World σ → Prop) : Account σ σ where
  Holds _ x _ _ := Guards inv x
  pure a _ := guards_pure a
  bind hx hf := hx.bind hf
  behind _ hx := hx
  gather _ hx := hx

namespace Expr

variable {σ : Type} {inv : World σ → Prop} {call : CallRule σ} {scope : Index}

/-- What the evaluation of an expression asks of its world in a scope keeps the invariant and does
not fail because of scopes. -/
structure Guarded (inv : World σ → Prop) (call : CallRule σ) (scope : Index) : Prop where
  value : ∀ n, Guards inv (ask (·.value? scope n))
  callable : ∀ n, Guards inv (ask (·.isCallable scope n))
  call : ∀ name args, Guards inv (call scope name args)
  assign : ∀ n v, Guards inv (setVariable scope n v)
  define : ∀ callee body names, Guards inv (defineFunction scope callee body names)
  dice : ∀ w dice, inv w → inv { w with dice }

variable [DiceSource σ]

theorem Guarded.covers (h : Guarded inv call scope) :
    (Account.guarding inv).Covers (fun _ => True) call call scope where
  literal _ _ := guards_pure _
  refuse herr := guards_throw herr.isScopeFault
  value := h.value
  callable := h.callable
  call name _ := h.call name _
  assign n o _ := h.assign n o.value
  define callee names body _ _ := h.define callee body names
  unary op o := guards_onDice h.dice ((Outcome.spares_unary op).alone o)
  binary op l r := guards_onDice h.dice ((Outcome.spares_binary op).alone (.pair l r))
  test o := guards_onDice h.dice (Outcome.spares_through Outcome.spares_asBool o)

/-- An evaluation does not fail because of scopes if nothing that it asks of the world does. -/
theorem guards_evalWith (h : Guarded inv call scope) (e : Expr) :
    Guards inv (e.evalWith call scope) :=
  h.covers.evalWith (All.of_forall (fun _ => trivial) e)

end Expr

/-- A call does not fail because of scopes if its body does not, in a world that is as it should be
while the scope is open and is so again when it has been closed. -/
theorem Function.guards_invoke {inv : World σ → Prop} {f : Function} {j : Nat}
    {enter : Function → Nat → Run σ Outcome} {name : String} {args : List Value}
    (hscope : f.scope = (j : Index)) (hj : ∀ w, inv w → j < w.context.scopes.size)
    (hbody : ∀ w, inv w → w.context.scopes.size ≤ maxCallDepth → ∃ inner : World σ → Prop,
      inner (World.opened { w with journal := w.journal.push (.called name args) } j name) ∧
      Guards inner
        (do bindArguments w.context.scopes.size f.parameters args; enter f w.context.scopes.size) ∧
      ∀ b, inner b → b.context.EndsWith w.context.scopes.size j name ∧ inv (b.closed name)) :
    Guards inv (f.invoke enter name args) := by
  intro w hw
  by_cases hrefused : args.length ≠ f.parameters.length ∨ maxCallDepth < w.context.scopes.size
  · rw [run_invoke_refused enter hrefused]
    refine ⟨hw, proper_error ?_⟩
    split <;> rfl
  · obtain ⟨hargs, hdepth⟩ := not_or.mp hrefused
    obtain ⟨inner, hopened, hguards, hclosed⟩ := hbody w hw (Nat.not_lt.mp hdepth)
    rw [run_invoke hscope (hj w hw) (Decidable.not_not.mp hargs) (Nat.not_lt.mp hdepth)]
    obtain ⟨hinner, hproper⟩ := hguards _ hopened
    obtain ⟨hend, hback⟩ := hclosed _ hinner
    rw [World.run_andThen_closeFrom hend]
    exact ⟨hback, hproper⟩

end DiceTome
