import DiceTome.Proofs.DeepThrows
import DiceTome.Proofs.DumpOrder

/-!
# Values without thrown rolls

Conversions put thrown rolls into outcomes in the course of an evaluation, but no such value is ever
passed on. What variables hold, what functions are given and what an evaluation returns are dice as
they were written, to be thrown anew wherever they are used. Only the last step of
`World.evalSource` throws a roll, and that is the value of the whole text.

* `Value.hasThrown`: whether a value is a thrown roll, or holds one.
* `Context.Visited`: the contexts that evaluations come through, and `Context.Visited.entered`: the
  bodies of functions are evaluated in such contexts.
* `Context.Visited.unrolled`: none of them holds a thrown roll, and no evaluation gives one.
-/

namespace DiceTome

open Step World

namespace Value

mutual

/-- Whether the value is a roll that has been thrown, or holds one at any depth. -/
def hasThrown : Value → Bool
  | outcome _ => true
  | list items => anyThrown items
  | _ => false

/-- Whether one of the values holds a roll that has been thrown. -/
def anyThrown : List Value → Bool
  | [] => false
  | v :: vs => v.hasThrown || anyThrown vs

end

mutual

theorem hasThrown_of_sound : ∀ {v : Value}, v.Sound → v.hasThrown = false
  | list items, h => by
    rw [hasThrown]
    exact anyThrown_of_sound h
  | roll _, _ | bool _, _ | decimal _, _ | natural _, _ | rolls _, _ | string _, _ | empty, _ => by
    rw [hasThrown]
    all_goals nofun

theorem anyThrown_of_sound : ∀ {vs : List Value}, SoundItems vs → anyThrown vs = false
  | [], _ => rfl
  | v :: vs, h => by rw [anyThrown, hasThrown_of_sound h.1, anyThrown_of_sound h.2, Bool.or_false]

end

end Value

/-! ## Contexts that evaluations come through -/

namespace Context

/-- The contexts that evaluations come through: those that texts make of an empty one, and what
becomes of them when scopes are opened and closed, parts of texts are evaluated in any scope, and
names are bound to arguments, which are values that such parts have given. -/
inductive Visited : Context → Prop
  | played {c : Context} (h : c.Played) : Visited c
  | opened {σ : Type} {w : World σ} (h : Visited w.context) (parent : Index) (name : String) :
    Visited ((pushScope parent name).run w).2.context
  | closed {σ : Type} {w : World σ} (h : Visited w.context) (k : Nat) :
    Visited ((closeFrom k).run w).2.context
  | evaluated {σ : Type} [DiceSource σ] {w : World σ} (h : Visited w.context) {e : Expr}
    (he : e.All Expr.Parsed) (level : Nat) (scope : Index) :
    Visited ((evalWithin level scope e).run w).2.context
  | argument {σ τ : Type} [DiceSource σ] {w w' : World σ} {w'' : World τ} (h : Visited w.context)
    {e : Expr} (he : e.All Expr.Parsed) {level : Nat} {scope : Index} {o : Outcome}
    (hrun : (evalWithin level scope e).run w = (.ok o, w')) (h'' : Visited w''.context)
    (child : Index) {n : String} (hn : (Expr.name n).Parsed) :
    Visited ((World.bind child n (.value o.value)).run w'').2.context

theorem Visited.lawful {c : Context} (h : c.Visited) : c.Lawful Expr.Parsed := by
  induction h with
  | played h => exact h.lawful
  | @opened σ w _ parent name ih => exact (keeps_pushScope parent name w ih).1
  | @closed σ w _ k ih => exact (keeps_closeFrom k w ih).1
  | @evaluated σ _ w _ e he level scope ih =>
    exact (keeps_evalWithin (fun _ => Expr.sound_literal) level scope he w ih).1
  | @argument σ τ _ w w' w'' _ e he level scope o hrun _ child n hn ih ih'' =>
    have hkeeps := keeps_evalWithin (fun _ => Expr.sound_literal) level scope he w ih
    have hbound : (Binding.value o.value).Lawful Expr.Parsed n :=
      ⟨hn, hkeeps.2 o (congrArg Prod.fst hrun)⟩
    exact (keeps_bind child hbound w'' ih'').1

/-- An evaluation in such a context has given the value. -/
def Given (v : Value) : Prop :=
  ∃ (σ : Type) (_ : DiceSource σ) (w w' : World σ) (e : Expr) (level : Nat) (scope : Index)
    (o : Outcome), w.context.Visited ∧ e.All Expr.Parsed ∧
      (evalWithin level scope e).run w = (.ok o, w') ∧ o.value = v

theorem Visited.bindArguments {σ : Type} {w : World σ} (h : w.context.Visited) (child : Index)
    {names : List String} {args : List Value}
    (hnames : Expr.AllItems Expr.Parsed (names.map .name)) (hargs : ∀ v ∈ args, Given v) :
    ((bindArguments child names args : Run σ Unit).run w).2.context.Visited := by
  induction names generalizing args w with
  | nil => exact h
  | cons n names ih =>
    cases args with
    | nil => exact h
    | cons v args =>
      obtain ⟨τ, _, a, a', e, level, scope, o, ha, he, hrun, rfl⟩ := hargs v List.mem_cons_self
      exact ih (ha.argument he hrun h child hnames.1) hnames.2
        fun v hv => hargs v (List.mem_cons_of_mem _ hv)

/-- A call evaluates the body of its function in such a context as well. -/
theorem Visited.entered {σ : Type} {w : World σ} (h : w.context.Visited) {scope : Index}
    {name : String} {f : Function} (hf : w.context.function? scope name = .ok (some f))
    {args : List Value} (hargs : ∀ v ∈ args, Given v) :
    f.body.All Expr.Parsed ∧
      ((do let child ← pushScope f.scope name; DiceTome.bindArguments child f.parameters args
          : Run σ Unit).run w).2.context.Visited := by
  have hlawful := h.lawful.function? hf
  refine ⟨hlawful.body, ?_⟩
  have hopened := h.opened f.scope name
  rw [ExceptT.run] at hopened ⊢
  rw [run_bind]
  cases hpush : pushScope f.scope name w with
  | mk result w' =>
    rw [hpush] at hopened
    cases result with
    | error err => exact hopened
    | ok child => exact Visited.bindArguments hopened child hlawful.head.2 hargs

/-- No variable in any scope holds a thrown roll. -/
def AllUnthrown (c : Context) : Prop :=
  ∀ (i : Nat) s, c.scopes[i]? = some s → ∀ q ∈ s.values, q.2.hasThrown = false

theorem Lawful.allUnthrown {p : Expr → Prop} {c : Context} (h : c.Lawful p) : c.AllUnthrown :=
  fun i s hs q hq =>
    Value.hasThrown_of_sound ((h i s hs).lawful q.1 _ (Scope.mem_values.mp hq)).2

end Context

/-! ## What evaluations give -/

/-- Throwing the dice of an outcome that is handed over and back, in terms of its value. -/
theorem Outcome.run_through_resolve {σ : Type} [DiceSource σ] (deep : Bool) (o : Outcome) (d : σ) :
    (o.through (resolve deep) : Step σ (Value × Outcome)) d =
      match o.value.resolve deep (o.rolls, d) with
      | (.ok v, (log, d')) => (.ok (v, ⟨v, log⟩), d')
      | (.error err, (_, d')) => (.error err, d') := by
  rw [through, ExceptT.run, run_resolve]
  cases (o.value.resolve deep : Step (List Rolled × σ) Value) (o.rolls, d) with
  | mk result st => cases result <;> rfl

/-- Throwing a roll at the top of an outcome changes nothing else. -/
theorem Outcome.resolved_cases {σ : Type} [DiceSource σ] {o o' : Outcome} {d : σ}
    (h : ((o.resolved : Step σ Outcome) d).1 = .ok o') :
    o' = o ∨ ∃ rolled : Rolled, o.value = .roll rolled.roll ∧
      o' = ⟨.outcome rolled, o.rolls ++ [rolled]⟩ := by
  rw [resolved, run_bind, run_through_resolve] at h
  obtain ⟨v, log⟩ := o
  cases v with
  | roll r =>
    simp only [Value.resolve] at h
    cases hrefusal : r.refusal? with
    | some err =>
      rw [Value.throwLogged_of_refusal? hrefusal] at h
      cases h
    | none =>
      obtain ⟨rolled, d', rfl, hthrow⟩ := Roll.exists_throw hrefusal d
      rw [Value.throwLogged_of_throw hthrow] at h
      cases h
      exact .inr ⟨rolled, rfl, rfl⟩
  | _ =>
    cases h
    exact .inl rfl

namespace World

variable {σ : Type} [DiceSource σ] {w w' : World σ}

theorem hasThrown_evalWithin (hw : w.context.Lawful Expr.Parsed) {e : Expr}
    (he : e.All Expr.Parsed) {level : Nat} {scope : Index} {o : Outcome}
    (hrun : (evalWithin level scope e).run w = (.ok o, w')) : o.value.hasThrown = false := by
  have hkeeps := keeps_evalWithin (fun _ => Expr.sound_literal) level scope he w hw
  exact Value.hasThrown_of_sound (hkeeps.2 o (congrArg Prod.fst hrun))

theorem hasThrown_evalArena (hw : w.context.Lawful Expr.Parsed) {a : Arena} (ha : IsStatement a)
    {scope : Index} {o : Outcome} (hrun : (evalArena a scope).run w = (.ok o, w')) :
    o.value.hasThrown = false := by
  obtain ⟨e, rfl, he⟩ := ha.parsed
  rw [evalArena, Arena.expr?_plant] at hrun
  exact hasThrown_evalWithin hw he hrun

theorem hasThrown_evalTome (hw : w.context.Lawful Expr.Parsed) {text : String}
    {os : List Outcome} (hrun : (evalTome text).run w = (.ok os, w')) :
    ∀ o ∈ os, o.value.hasThrown = false := by
  cases hparse : parseTome text with
  | error err =>
    rw [evalTome_of_error hparse] at hrun
    cases hrun
  | ok as =>
    obtain ⟨kinds, es, hkinds, hes, rfl⟩ := parseTome_eq_ok_iff.mp hparse
    have hkeeps := keeps_evalExprs (fun _ => Expr.sound_literal)
      (Expr.parsed_of_statements hkinds hes) w hw
    rw [evalTome_of_parse hparse, ExceptT.run] at hrun
    cases heval : evalExprs es w with
    | mk result w'' =>
      rw [heval] at hkeeps hrun
      cases result with
      | error err => cases hrun
      | ok os' =>
        cases hrun
        exact fun o ho => Value.hasThrown_of_sound (hkeeps.2 os rfl o ho)

/-- A text of one statement gives what its expression does, with a roll at the top thrown. -/
theorem exists_of_evalSource (hw : w.context.Lawful Expr.Parsed) {text : String} {scope : Index}
    {o : Outcome} (hrun : (evalSource text scope).run w = (.ok o, w')) :
    ∃ part : Outcome, part.value.hasThrown = false ∧
      (o = part ∨ ∃ rolled : Rolled, part.value = .roll rolled.roll ∧
        o = ⟨.outcome rolled, part.rolls ++ [rolled]⟩) := by
  obtain ⟨tokens, hscan, ⟨-, rfl, -⟩ | ⟨-, a, part, between, hparse, heval, hlast⟩⟩ :=
    evalSource_eq_ok_iff.mp hrun
  · exact ⟨{}, rfl, .inl rfl⟩
  · have hparsed : parseSource text = .ok a := by
      rw [parseSource, hscan]
      exact congrArg (Except.mapError _) hparse
    have hthrow : ((part.resolved : Step σ Outcome) between.dice).1 = .ok o :=
      congrArg Prod.fst hlast
    exact ⟨part, hasThrown_evalArena hw (isStatement_of_parseSource hparsed) heval,
      Outcome.resolved_cases hthrow⟩

/-- Evaluating the name of a variable leaves its dice as they are, so that a use of them draws. -/
theorem run_eval_name {scope : Index} {n : String} {v : Value}
    (hv : w.context.value? scope n = .ok (some v)) :
    eval (.name n) scope w = (.ok ⟨v, []⟩, w) := by
  obtain ⟨call, hcall⟩ := exists_callRule (.name n) scope w
  rw [hcall, Expr.evalWith, Expr.evalName, run_bind, run_ask, hv]
  rfl

/-- A use of a variable throws its dice with the dice of the moment, and the variable keeps them. -/
theorem run_throw_name {scope : Index} {n : String} {v : Value}
    (hv : w.context.value? scope n = .ok (some v)) {thrown : List Rolled} {d : σ}
    (hthrows : Roll.Throws v.dice w.dice thrown d) :
    (do let o ← eval (.name n) scope; onDice (o.through (Outcome.resolve true)) : Run σ _).run w =
      (.ok (v.fill thrown, ⟨v.fill thrown, thrown⟩), { w with dice := d }) := by
  have hthrow : (Outcome.through (Outcome.resolve true) ⟨v, []⟩ : Step σ _) w.dice =
      (.ok (v.fill thrown, ⟨v.fill thrown, thrown⟩), d) := by
    rw [Outcome.run_through_resolve, Value.resolve_of_throws hthrows]
    rfl
  rw [ExceptT.run, run_bind, run_eval_name hv]
  simp only [onDice, within, ExceptT.run, hthrow]

end World

namespace Context

/-- In a context that evaluations come through no variable holds a thrown roll, also not while a
function evaluates its body. No evaluation of what is parsed from texts gives a thrown roll, except
that a text of one statement throws a roll at the top of its value at last. The name of a variable
gives its dice as they are, and throwing them takes the dice of the moment and leaves the variable
alone. -/
theorem Visited.unrolled {c : Context} (h : c.Visited) :
    c.AllUnthrown ∧
    ∀ {σ : Type} [DiceSource σ] (w : World σ), w.context = c →
      (∀ scope name f args, c.function? scope name = .ok (some f) → (∀ v ∈ args, Given v) →
        ((do let child ← pushScope f.scope name; DiceTome.bindArguments child f.parameters args
            : Run σ Unit).run w).2.context.AllUnthrown) ∧
      (∀ a scope o w', IsStatement a → (evalArena a scope).run w = (.ok o, w') →
        o.value.hasThrown = false) ∧
      (∀ text os w', (evalTome text).run w = (.ok os, w') → ∀ o ∈ os, o.value.hasThrown = false) ∧
      (∀ text scope o w', (evalSource text scope).run w = (.ok o, w') →
        ∃ part : Outcome, part.value.hasThrown = false ∧
          (o = part ∨ ∃ rolled : Rolled, part.value = .roll rolled.roll ∧
            o = ⟨.outcome rolled, part.rolls ++ [rolled]⟩)) ∧
      ∀ scope n v, c.value? scope n = .ok (some v) →
        eval (.name n) scope w = (.ok ⟨v, []⟩, w) ∧
        ∀ thrown (d : σ), Roll.Throws v.dice w.dice thrown d →
          (do let o ← eval (.name n) scope; onDice (o.through (Outcome.resolve true))
              : Run σ (Value × Outcome)).run w =
            (.ok (v.fill thrown, ⟨v.fill thrown, thrown⟩), { w with dice := d }) := by
  have hlawful := h.lawful
  refine ⟨hlawful.allUnthrown, ?_⟩
  rintro σ _ w rfl
  exact ⟨fun scope name f args hf hargs => (h.entered hf hargs).2.lawful.allUnthrown,
    fun a scope o w' ha hrun => hasThrown_evalArena hlawful ha hrun,
    fun text os w' hrun => hasThrown_evalTome hlawful hrun,
    fun text scope o w' hrun => exists_of_evalSource hlawful hrun,
    fun scope n v hv => ⟨run_eval_name hv, fun thrown d => run_throw_name hv⟩⟩

/-- A list with dice is kept as it was written. -/
theorem unrolled_list :
    let w := ((evalTome "x = [2d6, 1]").run ({ dice := {} } : World ScriptedDice)).2
    ∃ s, w.context.scopes[0]? = some s ∧ (∀ q ∈ s.values, q.2.hasThrown = false) ∧
      ∃ v, w.context.value? root "x" = .ok (some v) ∧ v.hasUnthrown = true ∧
        eval (.name "x") root w = (.ok ⟨v, []⟩, w) := by
  intro w
  have hvisited : w.context.Visited := .played (.tome .start _)
  have hscope : w.context.scopes[0]?.isSome = true := by decide +kernel
  have hvalue : (w.context.value? root "x").toOption.join.any Value.hasUnthrown = true := by
    decide +kernel
  obtain ⟨hscopes, hworlds⟩ := hvisited.unrolled
  obtain ⟨-, -, -, -, hnames⟩ := hworlds w rfl
  obtain ⟨s, hs⟩ := Option.isSome_iff_exists.mp hscope
  refine ⟨s, hs, hscopes 0 s hs, ?_⟩
  cases hx : w.context.value? root "x" with
  | error err =>
    rw [hx] at hvalue
    cases hvalue
  | ok found =>
    rw [hx] at hvalue
    cases found with
    | none => cases hvalue
    | some v => exact ⟨v, rfl, hvalue, (hnames root "x" v hx).1⟩

end Context

end DiceTome
