import DiceTome.Dice.Scripted
import DiceTome.Proofs.SimilarDice
import DiceTome.Proofs.Tomes

/-!
# The log accounts for the dice

Every face that is drawn while an expression is evaluated stands in the log of its outcome, as often
as it has been drawn. The draws are made in one order and logged in another, so faces are counted.

* `Recorded`: a source of dice that keeps a record of the faces it shows.
* `Balanced`: a log has grown by the faces that have been drawn.
* `World.log_accounts_for_dice`: the faces in the log of an outcome are those that were drawn for it.
-/

namespace DiceTome

open Step

variable {σ : Type}

/-! ## Dice on record -/

/-- A source of dice and the faces that it has shown, in the order of the draws. -/
structure Recorded (σ : Type) where
  source : σ
  drawn : List Int := []

instance [DiceSource σ] : DiceSource (Recorded σ) where
  draw die d := ((DiceSource.draw die d.source).1,
    ⟨(DiceSource.draw die d.source).2, d.drawn ++ [(DiceSource.draw die d.source).1]⟩)

/-- The record does not change the faces. -/
theorem Recorded.similar [DiceSource σ] :
    DiceSource.Similar fun (a : σ) (d : Recorded σ) => d.source = a := by
  rintro die _ d rfl
  exact ⟨rfl, rfl⟩

/-- How often a face stands in a log. -/
def shown (face : Int) (rolls : List Rolled) : Nat :=
  (rolls.flatMap Rolled.faces).count face

@[simp]
theorem shown_nil (face : Int) : shown face [] = 0 := rfl

@[simp]
theorem shown_append (face : Int) (rolls more : List Rolled) :
    shown face (rolls ++ more) = shown face rolls + shown face more := by
  simp [shown]

/-- From the first state to the second the log has grown by the faces that have been drawn. -/
def Balanced (a b : List Rolled × Recorded σ) : Prop :=
  ∀ face, b.2.drawn.count face + shown face a.1 = a.2.drawn.count face + shown face b.1

theorem Balanced.refl (a : List Rolled × Recorded σ) : Balanced a a :=
  fun _ => rfl

theorem Balanced.trans {a b c : List Rolled × Recorded σ} (h : Balanced a b) (h' : Balanced b c) :
    Balanced a c := by
  intro face
  have hab := h face
  have hbc := h' face
  omega

/-- More entries in front of a log. -/
theorem Balanced.append {rolls rolls' : List Rolled} {d d' : Recorded σ}
    (h : Balanced (rolls, d) (rolls', d')) (front : List Rolled) :
    Balanced (front ++ rolls, d) (front ++ rolls', d') := by
  intro face
  have hface := h face
  simp only [shown_append] at hface ⊢
  omega

theorem Balanced.append_right {rolls rolls' : List Rolled} {d d' : Recorded σ}
    (h : Balanced (rolls, d) (rolls', d')) (behind : List Rolled) :
    Balanced (rolls ++ behind, d) (rolls' ++ behind, d') := by
  intro face
  have hface := h face
  simp only [shown_append] at hface ⊢
  omega

/-! ## Throwing dice -/

section

variable [DiceSource σ]

theorem Roll.drawn_drawOnto (die : Int) (n : Nat) (faces : List Int) (d : Recorded σ) :
    ∃ more, (drawOnto die n faces d).1 = more.reverse ++ faces ∧
      (drawOnto die n faces d).2.drawn = d.drawn ++ more := by
  induction n generalizing faces d with
  | zero => exact ⟨[], by simp [drawOnto], by simp [drawOnto]⟩
  | succ n ih =>
    obtain ⟨more, hfaces, hdrawn⟩ := ih ((DiceSource.draw die d).1 :: faces) (DiceSource.draw die d).2
    refine ⟨(DiceSource.draw die d).1 :: more, ?_, ?_⟩
    · simp only [drawOnto, hfaces, List.reverse_cons, List.append_assoc, List.singleton_append]
    · simp only [drawOnto, hdrawn]
      simp [DiceSource.draw]

/-- A roll shows what is drawn for it. -/
theorem Roll.ends_throw (r : Roll) (d : Recorded σ) :
    Ends r.throw d fun rolled d' => d'.drawn = d.drawn ++ rolled.faces := by
  by_cases hdie : r.die < 1
  · simp only [Roll.throw, if_pos hdie]
    exact ends_throw_bind _
  · by_cases hmany : maxDice < r.count
    · simp only [Roll.throw, if_neg hdie, if_pos hmany]
      exact ends_throw_bind _
    · simp only [Roll.throw, if_neg hdie, if_neg hmany]
      rintro _ ⟨⟩
      obtain ⟨more, hfaces, hdrawn⟩ := drawn_drawOnto r.die r.count.toNat [] d
      have hreverse : (drawFaces r.die r.count.toNat d).1 = more := by
        simp [drawFaces, hfaces]
      show (drawFaces r.die r.count.toNat d).2.drawn =
        d.drawn ++ (drawFaces r.die r.count.toNat d).1
      rw [hreverse]
      exact hdrawn

namespace Value

theorem ends_throwLogged (r : Roll) (st : List Rolled × Recorded σ) :
    Ends (throwLogged r) st fun _ st' => Balanced st st' := by
  have hthrow : Ends (within Prod.snd (fun dice st => (st.1, dice)) r.throw :
      Step (List Rolled × Recorded σ) Rolled) st
      fun rolled st' => st'.1 = st.1 ∧ st'.2.drawn = st.2.drawn ++ rolled.faces :=
    ends_within ((Roll.ends_throw r st.2).mono fun _ _ h => ⟨rfl, h⟩)
  refine hthrow.bind fun rolled st' h => ?_
  refine Ends.bind (ends_modify (q := fun _ => Balanced st) fun face => ?_) fun _ _ h => ends_pure h
  simp only [h.1, h.2, shown_append, List.count_append]
  simp only [shown, List.flatMap_cons, List.flatMap_nil, List.append_nil]
  omega

mutual

/-- Throwing the dice of a value enters them into the log. -/
theorem ends_resolve (deep : Bool) : ∀ (v : Value) (st : List Rolled × Recorded σ),
    Ends (v.resolve deep) st fun _ st' => Balanced st st'
  | roll r, st => ends_throwLogged r st
  | list items, st => by
    rw [resolve]
    cases deep with
    | true => exact (ends_resolveAll true items st).bind fun _ _ h => ends_pure h
    | false => exact ends_pure (Balanced.refl st)
  | bool _, st | decimal _, st | natural _, st | outcome _, st | rolls _, st | string _, st
  | empty, st => ends_pure (Balanced.refl st)

theorem ends_resolveAll (deep : Bool) : ∀ (vs : List Value) (st : List Rolled × Recorded σ),
    Ends (resolveAll deep vs) st fun _ st' => Balanced st st'
  | [], st => ends_pure (Balanced.refl st)
  | v :: vs, st => by
    rw [resolveAll]
    refine (ends_resolve deep v st).bind fun x st' h => ?_
    exact (ends_resolveAll deep vs st').bind fun _ _ h' => ends_pure (h.trans h')

end

theorem ends_throwLogged_thrown (r : Roll) (st : List Rolled × σ) :
    Ends (throwLogged r) st fun v _ => v.hasUnthrown = false :=
  Ends.bind (q := fun _ _ => True) (fun _ _ => trivial) fun _ _ _ =>
    Ends.bind (q := fun _ _ => True) (fun _ _ => trivial) fun _ _ _ => ends_pure rfl

mutual

/-- After a deep throw no dice are left to throw. -/
theorem ends_resolve_thrown : ∀ (v : Value) (st : List Rolled × σ),
    Ends (v.resolve true) st fun v' _ => v'.hasUnthrown = false
  | roll r, st => ends_throwLogged_thrown r st
  | list items, st => by
    rw [resolve]
    exact (ends_resolveAll_thrown items st).bind fun _ _ h => ends_pure (by rw [hasUnthrown, h])
  | bool _, _ | decimal _, _ | natural _, _ | outcome _, _ | rolls _, _ | string _, _
  | empty, _ => ends_pure rfl

theorem ends_resolveAll_thrown : ∀ (vs : List Value) (st : List Rolled × σ),
    Ends (resolveAll true vs) st fun vs' _ => anyUnthrown vs' = false
  | [], _ => ends_pure rfl
  | v :: vs, st => by
    rw [resolveAll]
    refine (ends_resolve_thrown v st).bind fun x st' h => ?_
    exact (ends_resolveAll_thrown vs st').bind fun _ _ h' => ends_pure (by rw [anyUnthrown, h, h']; rfl)

end

mutual

/-- A value without dice is left alone. -/
theorem resolve_of_thrown (deep : Bool) : ∀ {v : Value}, v.hasUnthrown = false →
    ∀ st : List Rolled × σ, v.resolve deep st = (.ok v, st)
  | roll _, h, _ => by cases h
  | list items, h, st => by
    rw [resolve]
    cases deep with
    | true =>
      have hitems := resolveAll_of_thrown true (by rw [hasUnthrown] at h; exact h) st
      show (resolveAll true items >>= fun vs => pure (list vs)) st = _
      rw [run_bind, hitems]
      rfl
    | false => rfl
  | bool _, _, _ | decimal _, _, _ | natural _, _, _ | outcome _, _, _ | rolls _, _, _
  | string _, _, _ | empty, _, _ => rfl

theorem resolveAll_of_thrown (deep : Bool) : ∀ {vs : List Value}, anyUnthrown vs = false →
    ∀ st : List Rolled × σ, resolveAll deep vs st = (.ok vs, st)
  | [], _, _ => rfl
  | v :: vs, h, st => by
    rw [anyUnthrown, Bool.or_eq_false_iff] at h
    simp only [resolveAll, run_bind, resolve_of_thrown deep h.1, resolveAll_of_thrown deep h.2]
    rfl

end

end Value

/-! ## Conversions -/

namespace Outcome

/-- The step enters what it throws into the log of the outcome it works on. -/
def Logs (step : Step (Outcome × Recorded σ) α) : Prop :=
  ∀ o d, Ends step (o, d) fun _ st => Balanced (o.rolls, d) (st.1.rolls, st.2)

theorem logs_resolve (deep : Bool) : Logs (resolve deep : Step (Outcome × Recorded σ) Value) := by
  intro o d
  refine Ends.bind (ends_get (q := fun a st => a = (o, d) ∧ st = (o, d)) ⟨rfl, rfl⟩) ?_
  rintro _ _ ⟨rfl, rfl⟩
  refine Ends.bind (q := fun _ st => Balanced (o.rolls, d) (st.1.rolls, st.2)) ?_ fun v st h => ?_
  · exact ends_within (Value.ends_resolve deep o.value (o.rolls, d))
  · exact Ends.bind (ends_modify (q := fun _ st => Balanced (o.rolls, d) (st.1.rolls, st.2)) h)
      fun _ _ h => ends_pure h

omit [DiceSource σ] in
theorem Logs.bind {x : Step (Outcome × Recorded σ) α} {f : α → Step (Outcome × Recorded σ) β}
    (hx : Logs x) (hf : ∀ a, Logs (f a)) : Logs (x >>= f) := by
  intro o d
  refine (hx o d).bind fun a st h => ?_
  exact (hf a st.1 st.2).mono fun _ _ h' => h.trans h'

omit [DiceSource σ] in
theorem logs_pure (a : α) : Logs (pure a : Step (Outcome × Recorded σ) α) :=
  fun _ _ => ends_pure (Balanced.refl _)

omit [DiceSource σ] in
theorem logs_ofExcept (result : Except EvalError α) :
    Logs (Step.ofExcept result : Step (Outcome × Recorded σ) α) :=
  fun _ _ => ends_ofExcept fun _ _ => Balanced.refl _

theorem logs_asDecimal : Logs (asDecimal : Step (Outcome × Recorded σ) Total) :=
  (logs_resolve true).bind fun _ => logs_ofExcept _

theorem logs_asNatural : Logs (asNatural : Step (Outcome × Recorded σ) Int) :=
  (logs_resolve true).bind fun _ => logs_ofExcept _

theorem logs_asBool : Logs (asBool : Step (Outcome × Recorded σ) Bool) :=
  (logs_resolve false).bind fun _ => logs_ofExcept _

theorem logs_asString : Logs (asString : Step (Outcome × Recorded σ) String) :=
  (logs_resolve false).bind fun _ => logs_pure _

theorem logs_faces : Logs (faces : Step (Outcome × Recorded σ) (List Int)) :=
  (logs_resolve false).bind fun _ => logs_ofExcept _

end Outcome

end

/-! ## Steps that turn one log into another -/

/-- If the step succeeds, the log `before` together with what has been drawn makes the log `after`;
the dice are the part of the state that `dice` tells. -/
def Step.Turns (dice : s → Recorded σ) (step : Step s α) (before : List Rolled)
    (after : α → List Rolled) : Prop :=
  ∀ st, Ends step st fun a st' => Balanced (before, dice st) (after a, dice st')

namespace Step

variable {s : Type} {dice : s → Recorded σ}

theorem turns_pure {a : α} {before : List Rolled} {after : α → List Rolled} (h : before = after a) :
    Turns dice (pure a : Step s α) before after :=
  fun _ => ends_pure (h ▸ Balanced.refl _)

theorem turns_throw (err : EvalError) {before : List Rolled} {after : α → List Rolled} :
    Turns dice (throw err : Step s α) before after :=
  fun _ => ends_throw err

theorem turns_throw_bind (err : EvalError) {f : α → Step s β} {before : List Rolled}
    {after : β → List Rolled} : Turns dice (throw err >>= f) before after :=
  fun _ => ends_throw_bind err

/-- A step that leaves the dice alone. -/
theorem turns_still {step : Step s α} (h : ∀ st, dice (step st).2 = dice st)
    (before : List Rolled) : Turns dice step before fun _ => before := by
  intro st a _
  show Balanced (before, dice st) (before, dice (step st).2)
  rw [h st]
  exact Balanced.refl _

theorem turns_ofExcept (result : Except EvalError α) (before : List Rolled) :
    Turns dice (ofExcept result : Step s α) before fun _ => before :=
  turns_still (fun _ => rfl) before

theorem Turns.bind {x : Step s α} {f : α → Step s β} {before : List Rolled}
    {between : α → List Rolled} {after : β → List Rolled} (hx : Turns dice x before between)
    (hf : ∀ a, Turns dice (f a) (between a) after) : Turns dice (x >>= f) before after :=
  fun st => (hx st).bind fun a st' h => (hf a st').mono fun _ _ h' => h.trans h'

/-- What stood in the log before stays there. -/
theorem Turns.append {x : Step s α} {before : List Rolled} {after : α → List Rolled}
    (h : Turns dice x before after) (front : List Rolled) :
    Turns dice x (front ++ before) fun a => front ++ after a :=
  fun st => (h st).mono fun _ _ h' => h'.append front

theorem Turns.append_right {x : Step s α} {before : List Rolled} {after : α → List Rolled}
    (h : Turns dice x before after) (behind : List Rolled) :
    Turns dice x (before ++ behind) fun a => after a ++ behind :=
  fun st => (h st).mono fun _ _ h' => h'.append_right behind

theorem Turns.behind {x : Step s α} {after : α → List Rolled} (h : Turns dice x [] after)
    (front : List Rolled) : Turns dice x front fun a => front ++ after a := by
  have hfront := h.append front
  rwa [List.append_nil] at hfront

/-- The last step leaves the dice alone. -/
theorem Turns.andThen {last : Step s Unit} {x : Step s α} {before : List Rolled}
    {after : α → List Rolled} (h : Turns dice x before after)
    (hlast : ∀ st, dice (last st).2 = dice st) :
    Turns dice (Step.andThen last x) before after := by
  intro st a ha
  have hsame := hlast (x st).2
  rw [run_andThen] at ha ⊢
  cases hclose : last (x st).2 with
  | mk close st' =>
    rw [hclose] at ha hsame
    cases close with
    | error err => cases ha
    | ok _ =>
      show Balanced (before, dice st) (after a, dice st')
      rw [hsame]
      exact h st a ha

end Step

namespace Outcome

theorem ends_through {s : Type} {step : Step (Outcome × s) α} {o : Outcome} {d : s}
    {q : α × Outcome → s → Prop} (h : Ends step (o, d) fun a st => q (a, st.1) st.2) :
    Ends (o.through step) d q := by
  intro r hr
  unfold through at hr ⊢
  unfold Ends at h
  simp only [ExceptT.run] at hr ⊢
  cases hrun : step (o, d) with
  | mk result st =>
    rw [hrun] at hr h
    cases result with
    | error err => cases hr
    | ok a =>
      cases hr
      exact h a rfl

theorem turns_through {step : Step (Outcome × Recorded σ) α} (h : Logs step) (o : Outcome) :
    Turns id (o.through step) o.rolls fun r => r.2.rolls :=
  fun d => ends_through (h o d)

theorem turns_resolved [DiceSource σ] (o : Outcome) :
    Turns id (o.resolved : Step (Recorded σ) Outcome) o.rolls fun o' => o'.rolls :=
  (turns_through (logs_resolve false) o).bind fun _ => turns_pure rfl

/-! ## Operators -/

/-- The new outcome has the log of the operand as it is by then. -/
theorem ends_carry (v : Value) (st : Outcome × Recorded σ) :
    Ends (carry v) st fun o st' => o.rolls = st.1.rolls ∧ st' = st := by
  refine Ends.bind (ends_get (q := fun a st' => a = st ∧ st' = st) ⟨rfl, rfl⟩) ?_
  rintro _ _ ⟨rfl, rfl⟩
  exact ends_pure ⟨rfl, rfl⟩

theorem turns_carried {step : Step (Outcome × Recorded σ) α} (h : Logs step) (f : α → Value)
    (o : Outcome) :
    Turns id (alone o (step >>= fun a => carry (f a))) o.rolls fun o' => o'.rolls := by
  intro d
  refine ends_alone ((h o d).bind fun a st hst => ?_)
  refine (ends_carry (f a) st).mono fun o' st' ho' => ?_
  obtain ⟨hrolls, rfl⟩ := ho'
  show Balanced (o.rolls, d) (o'.rolls, st'.2)
  rw [hrolls]
  exact hst

theorem turns_flagged (set : Roll → Roll) (o : Outcome) :
    Turns id (alone o (flagged set : Step (Outcome × Recorded σ) Outcome)) o.rolls
      fun o' => o'.rolls := by
  intro d
  refine ends_alone (Ends.bind (ends_get (q := fun a st => a = (o, d) ∧ st = (o, d)) ⟨rfl, rfl⟩) ?_)
  rintro _ _ ⟨rfl, rfl⟩
  dsimp only
  cases o.value with
  | roll r =>
    refine (ends_carry _ (o, d)).mono fun o' st' ho' => ?_
    obtain ⟨hrolls, rfl⟩ := ho'
    show Balanced (o.rolls, d) (o'.rolls, d)
    rw [hrolls]
    exact Balanced.refl _
  | _ => exact ends_throw _

variable [DiceSource σ]

theorem turns_unary (op : UnaryOp) (o : Outcome) :
    Turns id (alone o (unary op) : Step (Recorded σ) Outcome) o.rolls fun o' => o'.rolls := by
  cases op with
  | neg => exact turns_carried logs_asDecimal _ o
  | not => exact turns_carried logs_asBool _ o
  | sort => exact turns_carried logs_faces _ o
  | advantage => exact turns_flagged _ o
  | disadvantage => exact turns_flagged _ o

end Outcome

namespace Operands

/-- Two operands and the dice have become the operands and the dice of the state. -/
def FromPair (l r : Outcome) (d : Recorded σ) (st : Operands × Recorded σ) : Prop :=
  ∃ l' r', st.1 = .pair l' r' ∧ Balanced (l.rolls ++ r.rolls, d) (l'.rolls ++ r'.rolls, st.2)

theorem ends_onLeft {step : Step (Outcome × Recorded σ) α} (h : Outcome.Logs step) {l r : Outcome}
    {d : Recorded σ} {st : Operands × Recorded σ} (hst : FromPair l r d st) :
    Ends (onLeft step) st fun _ st' => FromPair l r d st' := by
  obtain ⟨operands, d'⟩ := st
  obtain ⟨l', r', rfl, hpair⟩ := hst
  refine ends_within ((h l' d').mono fun a st' h' => ?_)
  exact ⟨st'.1, r', rfl, hpair.trans (h'.append_right r'.rolls)⟩

theorem ends_onRight {step : Step (Outcome × Recorded σ) α} (h : Outcome.Logs step) {l r : Outcome}
    {d : Recorded σ} {st : Operands × Recorded σ} (hst : FromPair l r d st) :
    Ends (onRight step) st fun _ st' => FromPair l r d st' := by
  obtain ⟨operands, d'⟩ := st
  obtain ⟨l', r', rfl, hpair⟩ := hst
  refine ends_within ((h r' d').mono fun a st' h' => ?_)
  exact ⟨l', st'.1, rfl, hpair.trans (h'.append l'.rolls)⟩

/-- The step gives an outcome with the logs of two operands and of what it throws. -/
def Merges (step : Step (Operands × Recorded σ) Outcome) : Prop :=
  ∀ l r d st, FromPair l r d st →
    Ends step st fun o st' => Balanced (l.rolls ++ r.rolls, d) (o.rolls, st'.2)

theorem merges_get_bind {f : Operands × Recorded σ → Step (Operands × Recorded σ) Outcome}
    (h : ∀ st, Merges (f st)) : Merges (get >>= f) := by
  intro l r d st hst
  refine Ends.bind (ends_get (q := fun _ st' => FromPair l r d st') hst) fun a st' h' => ?_
  exact h a l r d st' h'

theorem merges_ofExcept_bind {result : Except EvalError α}
    {f : α → Step (Operands × Recorded σ) Outcome} (h : ∀ a, Merges (f a)) :
    Merges (Step.ofExcept result >>= f) := by
  intro l r d st hst
  refine Ends.bind (ends_ofExcept (q := fun _ st' => FromPair l r d st') fun _ _ => hst) ?_
  exact fun a st' h' => h a l r d st' h'

theorem merges_merge (v : Value) : Merges (merge v : Step (Operands × Recorded σ) Outcome) := by
  intro l r d st hst
  refine Ends.bind (ends_get (q := fun a st' => a = st ∧ st' = st) ⟨rfl, rfl⟩) ?_
  rintro _ _ ⟨rfl, rfl⟩
  obtain ⟨l', r', hpair, hbalanced⟩ := hst
  refine ends_pure ?_
  simp only [hpair]
  exact hbalanced

/-- An operator that converts its left operand and then its right one. -/
theorem merges_converted {x : Step (Outcome × Recorded σ) α} {y : Step (Outcome × Recorded σ) β}
    (hx : Outcome.Logs x) (hy : Outcome.Logs y)
    {f : α → β → Step (Operands × Recorded σ) Outcome} (h : ∀ a b, Merges (f a b)) :
    Merges (do f (← onLeft x) (← onRight y)) := by
  intro l r d st hst
  refine (ends_onLeft hx hst).bind fun a st' h' => (ends_onRight hy h').bind fun b st'' h'' => ?_
  exact h a b l r d st'' h''

end Operands

namespace Outcome

open Operands

variable [DiceSource σ]

theorem merges_arithmetic (op : BinaryOp) (f : Float → Float → Float) :
    Merges (arithmetic op f : Step (Operands × Recorded σ) Outcome) :=
  merges_converted logs_asDecimal logs_asDecimal fun _ _ =>
    merges_ofExcept_bind fun _ => merges_merge _

theorem merges_compare (f : Float → Float → Bool) :
    Merges (compare f : Step (Operands × Recorded σ) Outcome) :=
  merges_converted logs_asDecimal logs_asDecimal fun _ _ => merges_merge _

theorem merges_binary (op : BinaryOp) :
    Merges (binary op : Step (Operands × Recorded σ) Outcome) := by
  unfold binary
  cases op with
  | add =>
    refine merges_get_bind fun st => ?_
    split
    · exact merges_converted logs_asString logs_asString fun _ _ => merges_merge _
    · exact merges_arithmetic _ _
  | sub | mul | div | pow => exact merges_arithmetic _ _
  | and | or => exact merges_converted logs_asBool logs_asBool fun _ _ => merges_merge _
  | equal => exact merges_get_bind fun _ => merges_ofExcept_bind fun _ => merges_merge _
  | greater | less | greaterEqual | lessEqual => exact merges_compare _
  | keep => exact merges_converted logs_faces logs_asNatural fun _ _ => merges_merge _
  | discard | assign => exact merges_get_bind fun _ => merges_merge _

theorem turns_binary (op : BinaryOp) (l r : Outcome) :
    Turns id (alone (.pair l r) (binary op) : Step (Recorded σ) Outcome) (l.rolls ++ r.rolls)
      fun o => o.rolls :=
  fun d => ends_alone (merges_binary op l r d _ ⟨l, r, rfl, Balanced.refl _⟩)

end Outcome

/-! ## Builtin functions -/

namespace Value

theorem anyUnthrown_eq_false {vs : List Value} :
    anyUnthrown vs = false ↔ ∀ v ∈ vs, v.hasUnthrown = false := by
  induction vs with
  | nil => simp [anyUnthrown]
  | cons v vs ih => simp [anyUnthrown, ih]

end Value

namespace Outcome

variable [DiceSource σ]

/-- Nothing is thrown for a value without dice. -/
theorem run_resolve_of_thrown {o : Outcome} (h : o.value.hasUnthrown = false) (deep : Bool)
    (d : σ) : (resolve deep : Step (Outcome × σ) Value) (o, d) = (.ok o.value, (o, d)) := by
  simp only [resolve, run_bind, run_get, within, ExceptT.run, Value.resolve_of_thrown deep h]
  rfl

theorem ends_through_of_thrown {o : Outcome} (h : o.value.hasUnthrown = false) (d : σ) :
    Ends (o.through asDecimal) d fun _ d' => d' = d := by
  intro r _
  simp only [through, asDecimal, ExceptT.run, run_bind, run_resolve_of_thrown h]
  cases o.value.asDecimal <;> rfl

theorem ends_resolve_thrown (o : Outcome) (d : σ) :
    Ends (resolve true) (o, d) fun _ st => st.1.value.hasUnthrown = false := by
  refine Ends.bind (ends_get (q := fun a st => a = (o, d) ∧ st = (o, d)) ⟨rfl, rfl⟩) ?_
  rintro _ _ ⟨rfl, rfl⟩
  refine Ends.bind (q := fun v _ => v.hasUnthrown = false) ?_ fun v st h => ?_
  · exact ends_within (Value.ends_resolve_thrown o.value (o.rolls, d))
  · exact Ends.bind (ends_modify (q := fun _ st => st.1.value.hasUnthrown = false) h)
      fun _ _ h => ends_pure h

/-- The logs of some outcomes. -/
def logs (os : List Outcome) : List Rolled :=
  os.flatMap Outcome.rolls

@[simp]
theorem logs_nil : logs [] = [] := rfl

@[simp]
theorem logs_singleton (o : Outcome) : logs [o] = o.rolls :=
  List.append_nil o.rolls

@[simp]
theorem logs_append (os more : List Outcome) : logs (os ++ more) = logs os ++ logs more :=
  List.flatMap_append

end Outcome

namespace Builtin

open Outcome

variable [DiceSource σ]

theorem turns_rounding (round : Float → Except EvalError Int) (o : Outcome) :
    Turns id (rounding round o : Step (Recorded σ) Reply) (logs [o]) fun r => logs r.args := by
  rw [logs_singleton]
  exact (turns_through logs_asDecimal o).bind fun r => (turns_ofExcept _ _).bind fun _ =>
    turns_pure (logs_singleton r.2).symm

theorem turns_decimalsOf (os : List Outcome) :
    Turns id (decimalsOf os : Step (Recorded σ) _) (logs os) fun r => logs r.2 := by
  induction os with
  | nil => exact turns_pure rfl
  | cons o os ih =>
    exact ((turns_through logs_asDecimal o).append_right (logs os)).bind fun r =>
      (ih.append r.2.rolls).bind fun _ => turns_pure rfl

theorem turns_stringsOf (os : List Outcome) :
    Turns id (stringsOf os : Step (Recorded σ) _) (logs os) fun r => logs r.2 := by
  induction os with
  | nil => exact turns_pure rfl
  | cons o os ih =>
    exact ((turns_through logs_asString o).append_right (logs os)).bind fun r =>
      (ih.append r.2.rolls).bind fun _ => turns_pure rfl

theorem turns_resolveLone (args : List Outcome) :
    Turns id (resolveLone args : Step (Recorded σ) _) (logs args) logs := by
  rcases args with _ | ⟨o, _ | ⟨_, _⟩⟩
  · exact turns_pure rfl
  · exact ((turns_through (logs_resolve true) o).append_right []).bind fun _ => turns_pure rfl
  · exact turns_pure rfl

theorem ends_resolveLone_thrown (args : List Outcome) (d : σ) :
    Ends (resolveLone args) d fun args' _ => ∀ o, args' = [o] → o.value.hasUnthrown = false := by
  rcases args with _ | ⟨o, _ | ⟨_, _⟩⟩
  · exact ends_pure nofun
  · have hthrown : Ends (o.through (resolve true)) d fun r _ => r.2.value.hasUnthrown = false :=
      ends_through (ends_resolve_thrown o d)
    refine hthrown.bind fun r _ h => ends_pure ?_
    rintro _ ⟨⟩
    exact h
  · exact ends_pure nofun

/-- The items of a lone list without dice have no dice. -/
theorem thrown_of_spread? {args items : List Outcome} (h : spread? args = .ok (some items))
    (hargs : ∀ o, args = [o] → o.value.hasUnthrown = false) :
    ∀ i ∈ items, i.value.hasUnthrown = false := by
  rcases args with _ | ⟨o, _ | ⟨_, _⟩⟩
  · cases h
  · have hvalues : ∀ values : List Value, (∀ v ∈ values, v.hasUnthrown = false) →
        ∀ i ∈ values.map fun v => ({ value := v } : Outcome), i.value.hasUnthrown = false := by
      intro values hv i hi
      obtain ⟨v, hmem, rfl⟩ := List.mem_map.mp hi
      exact hv v hmem
    have hthrown := hargs o rfl
    unfold spread? at h
    cases hvalue : o.value with
    | list values =>
      rw [hvalue, Value.hasUnthrown, Value.anyUnthrown_eq_false] at hthrown
      simp only [hvalue] at h
      split at h
      · cases h
      · rename_i heq
        cases heq
        cases h
        exact hvalues _ hthrown
      · cases h
    | rolls faces =>
      simp only [hvalue] at h
      split at h
      · cases h
      · rename_i heq
        cases heq
        cases h
        refine hvalues _ fun v hv => ?_
        obtain ⟨face, -, rfl⟩ := List.mem_map.mp hv
        rfl
      · cases h
    | _ =>
      simp only [hvalue] at h
      cases h
  · cases h

theorem ends_decimalsOf_of_thrown {os : List Outcome} (h : ∀ o ∈ os, o.value.hasUnthrown = false)
    (d : σ) : Ends (decimalsOf os) d fun _ d' => d' = d := by
  induction os with
  | nil => exact ends_pure rfl
  | cons o os ih =>
    refine (ends_through_of_thrown (h o List.mem_cons_self) d).bind fun r d' hd => ?_
    subst hd
    exact (ih fun o ho => h o (List.mem_cons_of_mem _ ho)).bind fun _ _ hd => ends_pure hd

/-- The items of a lone list are looked at one by one, but the dice in them have been thrown with
the list, so that nothing is thrown twice. -/
theorem turns_extreme (better : Float → Float → Bool) (args : List Outcome) :
    Turns id (extreme better args : Step (Recorded σ) Reply) (logs args) fun r => logs r.args := by
  intro d
  refine ((turns_resolveLone args d).and (ends_resolveLone_thrown args d)).bind fun args' d' h => ?_
  obtain ⟨hbalanced, hthrown⟩ := h
  refine Ends.bind (ends_ofExcept (q := fun found st => spread? args' = .ok found ∧ st = d')
    fun _ h => ⟨h, rfl⟩) fun found st h => ?_
  obtain ⟨hfound, rfl⟩ := h
  cases found with
  | some items =>
    refine (ends_decimalsOf_of_thrown (thrown_of_spread? hfound hthrown) _).bind fun r d'' h => ?_
    subst h
    exact ends_pure hbalanced
  | none => exact (turns_decimalsOf args' _).bind fun r d'' h => ends_pure (hbalanced.trans h)

/-- The builtin functions. -/
theorem turns_run (f : Builtin) (args : List Outcome) :
    Turns id (f.run args : Step (Recorded σ) Reply) (logs args) fun r => logs r.args := by
  have hitems : ∀ o : Outcome, Turns id (o.through resolve : Step (Recorded σ) _) o.rolls
      fun r => r.2.rolls := turns_through (logs_resolve false)
  have hindex : ∀ o : Outcome, Turns id (o.through asNatural : Step (Recorded σ) _) o.rolls
      fun r => r.2.rolls := turns_through logs_asNatural
  unfold run
  split
  · exact turns_rounding _ _
  · exact turns_rounding _ _
  · exact turns_rounding _ _
  · split
    · exact turns_pure rfl
    · rw [logs_singleton]
      exact (turns_through logs_asDecimal _).bind fun _ => turns_pure (logs_singleton _).symm
  · exact turns_extreme _ _
  · exact turns_extreme _ _
  · exact (turns_ofExcept _ _).bind fun _ => turns_pure rfl
  · exact (turns_ofExcept _ _).bind fun _ => turns_pure rfl
  · rw [logs_singleton]
    refine (hitems _).bind fun r => ?_
    obtain ⟨v, x⟩ := r
    cases v with
    | string s => exact turns_pure (logs_singleton x).symm
    | _ => exact (turns_ofExcept _ _).bind fun _ => turns_pure (logs_singleton x).symm
  · rename_i items index
    refine ((hitems items).append_right (logs [index])).bind fun r => ?_
    refine (turns_ofExcept _ _).bind fun _ => ?_
    refine (((hindex index).append_right []).append r.2.rolls).bind fun r' => ?_
    exact (turns_ofExcept _ _).bind fun _ => turns_pure rfl
  · rename_i items index item
    refine ((hitems items).append_right (logs [index, item])).bind fun r => ?_
    refine (turns_ofExcept _ _).bind fun _ => ?_
    refine (((hindex index).append_right (logs [item])).append r.2.rolls).bind fun r' => ?_
    exact (turns_ofExcept _ _).bind fun _ => turns_pure rfl
  · exact (turns_stringsOf _).bind fun _ => turns_pure rfl
  · exact turns_throw _

theorem turns_call (name : String) (args : List Value) :
    Turns id (call name args : Step (Recorded σ) (Outcome × Option String)) []
      fun r => r.1.rolls := by
  have hargs : logs (args.map fun v => { value := v }) = [] := by
    simp [logs, List.flatMap_eq_nil_iff]
  unfold call
  cases ofName? name with
  | none => exact turns_throw _
  | some f =>
    have hrun := turns_run (σ := σ) f (args.map fun v => { value := v })
    rw [hargs] at hrun
    dsimp only
    split
    · exact hrun.bind fun _ => turns_pure rfl
    · exact turns_throw _

end Builtin

/-! ## Evaluation -/

namespace World

/-- A step that treats all dice alike leaves them alone. -/
theorem dice_of_couples {step : Run σ α}
    (h : ∀ D : σ → σ → Prop, Couples (Matches D) step step) (w : World σ) :
    (step w).2.dice = w.dice := by
  have hsame : Matches (fun a b => a = w.dice ∧ b = w.dice) w w := ⟨rfl, rfl, rfl, rfl, rfl, rfl⟩
  exact (h _ w w hsame).2.dice.1

theorem turns_of_couples {step : Run (Recorded σ) α}
    (h : ∀ D : Recorded σ → Recorded σ → Prop, Couples (Matches D) step step)
    (before : List Rolled) : Turns World.dice step before fun _ => before :=
  turns_still (dice_of_couples h) before

theorem turns_onDice {step : Step (Recorded σ) α} {before : List Rolled} {after : α → List Rolled}
    (h : Turns id step before after) : Turns World.dice (onDice step) before after :=
  fun w => ends_within (h w.dice)

theorem turns_ask (question : Context → Except EvalError α) (before : List Rolled) :
    Turns World.dice (ask question : Run (Recorded σ) α) before fun _ => before :=
  turns_of_couples (fun _ => couples_ask_matches question) before

theorem turns_invoke {enter : Function → Nat → Run (Recorded σ) Outcome}
    (henter : ∀ f child, Turns World.dice (enter f child) [] Outcome.rolls) (f : Function)
    (name : String) (args : List Value) :
    Turns World.dice (f.invoke enter name args) [] Outcome.rolls := by
  unfold Function.invoke
  by_cases hargs : args.length ≠ f.parameters.length
  · simp only [if_pos hargs]
    exact turns_throw_bind _
  · simp only [if_neg hargs]
    refine (turns_still (fun _ => rfl) []).bind fun w => ?_
    by_cases hdepth : maxCallDepth < w.context.scopes.size
    · simp only [if_pos hdepth]
      exact turns_throw_bind _
    · simp only [if_neg hdepth]
      refine (turns_of_couples (fun _ => couples_record_matches _) []).bind fun _ => ?_
      refine (turns_of_couples (fun _ => couples_pushScope_matches _ _) []).bind fun child => ?_
      refine Turns.andThen ?_ (dice_of_couples fun _ => openAlike_matches.closeFrom child)
      exact (turns_of_couples (fun _ => openAlike_matches.bindArguments _ _ _) []).bind fun _ =>
        henter f child

variable [DiceSource σ]

theorem turns_callBuiltin (name : String) (args : List Value) :
    Turns World.dice (callBuiltin name args : Run (Recorded σ) Outcome) [] Outcome.rolls := by
  refine (turns_onDice (Builtin.turns_call name args)).bind fun reply => ?_
  obtain ⟨result, printed⟩ := reply
  cases printed with
  | none => exact turns_pure rfl
  | some line =>
    exact (turns_of_couples (fun _ => couples_printLine_matches line) _).bind fun _ =>
      turns_pure rfl

theorem turns_callFunction {enter : Function → Nat → Run (Recorded σ) Outcome}
    (henter : ∀ f child, Turns World.dice (enter f child) [] Outcome.rolls) (scope : Index)
    (name : String) (args : List Value) :
    Turns World.dice (callFunction enter scope name args) [] Outcome.rolls := by
  rw [callFunction_eq]
  refine (turns_ask _ _).bind fun found => ?_
  cases found with
  | none => exact turns_callBuiltin name args
  | some f => exact turns_invoke henter f name args

end World

/-- Told of the first step alone: the logs at hand grow by what it draws. -/
def Account.turning (σ : Type) : Account (Recorded σ) (Recorded σ) where
  Holds parts x _ rest := Turns World.dice x (Outcome.logs parts) fun a => Outcome.logs (rest a)
  pure _ _ := turns_pure rfl
  bind hx hf := hx.bind hf
  behind parts hx := by
    simpa only [Outcome.logs_append] using Turns.behind hx (Outcome.logs parts)
  gather _ hx := by
    rwa [Outcome.logs_singleton] at hx

namespace Expr

open World

variable [DiceSource σ]

theorem covers_turning {call : CallRule (Recorded σ)}
    (hcall : ∀ scope name args, Turns World.dice (call scope name args) [] Outcome.rolls)
    (scope : Index) : (Account.turning σ).Covers (fun _ => True) call call scope where
  literal _ _ := turns_pure rfl
  refuse _ := turns_throw _
  value _ := by
    have hempty (found : Option Value) :
        Outcome.logs (found.toList.map fun v => ({ value := v } : Outcome)) = [] := by
      cases found <;> rfl
    simpa only [Account.turning, Outcome.logs_nil, hempty] using turns_ask _ []
  callable _ := turns_ask _ []
  call name parts := by
    simpa only [Account.turning, Outcome.logs_append, Outcome.logs_singleton] using
      (hcall scope name (parts.map Outcome.value)).behind (Outcome.logs parts)
  assign _ o _ := turns_of_couples (fun _ => couples_setVariable_matches _ _ _) (Outcome.logs [o])
  define _ _ _ _ _ := turns_of_couples (fun _ => couples_defineFunction_matches _ _ _ _) []
  unary op o := by
    simpa only [Account.turning, Outcome.logs_singleton] using turns_onDice (Outcome.turns_unary op o)
  binary op l r := by
    have hpair : Outcome.logs [l, r] = l.rolls ++ r.rolls := by
      simp [Outcome.logs]
    simpa only [Account.turning, Outcome.logs_singleton, hpair] using
      turns_onDice (Outcome.turns_binary op l r)
  test o := by
    simpa only [Account.turning, Outcome.logs_singleton] using
      turns_onDice (Outcome.turns_through Outcome.logs_asBool o)

/-- An evaluation logs what it draws if the calls in it do. -/
theorem turns_evalWith {call : CallRule (Recorded σ)}
    (hcall : ∀ scope name args, Turns World.dice (call scope name args) [] Outcome.rolls)
    (scope : Index) (e : Expr) : Turns World.dice (e.evalWith call scope) [] Outcome.rolls := by
  simpa only [Account.turning, Outcome.logs_nil, Outcome.logs_singleton] using
    (covers_turning hcall scope).evalWith (All.of_forall (fun _ => trivial) e)

end Expr

namespace World

variable [DiceSource σ]

theorem turns_evalWithin (level : Nat) (scope : Index) (e : Expr) :
    Turns World.dice (evalWithin level scope e : Run (Recorded σ) Outcome) [] Outcome.rolls := by
  induction level generalizing scope e with
  | zero => exact Expr.turns_evalWith (turns_callFunction fun _ _ => turns_throw _) scope e
  | succ level ih =>
    exact Expr.turns_evalWith (turns_callFunction fun f child => ih child f.body) scope e

theorem turns_evalArena (a : Arena) (scope : Index) :
    Turns World.dice (evalArena a scope : Run (Recorded σ) Outcome) [] Outcome.rolls := by
  unfold evalArena
  cases a.expr? with
  | none => exact turns_pure rfl
  | some e => exact (turns_still (fun _ => rfl) []).bind fun _ => turns_evalWithin _ scope e

omit [DiceSource σ] in
/-- The world with a record of its dice. -/
def recording (w : World σ) (drawn : List Int) : World (Recorded σ) :=
  { w with dice := ⟨w.dice, drawn⟩ }

omit [DiceSource σ] in
/-- A world that matches one with a record is that one but for the record. -/
theorem eq_recording {w : World σ} {w' : World (Recorded σ)}
    (h : Matches (fun a d => d.source = a) w w') : w' = w.recording w'.dice.drawn := by
  obtain ⟨context, ⟨source, drawn⟩, declared, output, journal⟩ := w'
  obtain ⟨rfl, rfl, rfl, rfl, rfl⟩ := h
  rfl

omit [DiceSource σ] in
/-- A step that succeeds does the same over a record, which then balances its log. -/
theorem run_recording {x : Run σ α} {y : Run (Recorded σ) α} {before : List Rolled}
    {after : α → List Rolled} (hxy : Couples (Matches fun a d => d.source = a) x y)
    (hy : Turns World.dice y before after) {w w' : World σ} {a : α}
    (hrun : x.run w = (.ok a, w')) (drawn : List Int) :
    ∃ faces, y.run (w.recording drawn) = (.ok a, w'.recording faces) ∧
      Balanced (before, ⟨w.dice, drawn⟩) (after a, ⟨w'.dice, faces⟩) := by
  obtain ⟨hresult, hmatches⟩ := hxy w (w.recording drawn) ⟨rfl, rfl, rfl, rfl, rfl⟩
  have hx : x w = (.ok a, w') := hrun
  rw [hx] at hresult hmatches
  have hend := eq_recording hmatches
  refine ⟨(y (w.recording drawn)).2.dice.drawn, Prod.ext hresult.symm hend, ?_⟩
  have hbalanced := hy (w.recording drawn) a hresult.symm
  dsimp only at hbalanced
  rw [hend] at hbalanced
  exact hbalanced

omit [DiceSource σ] in
/-- The faces in a log that balances an empty one are those that were drawn. -/
theorem perm_of_balanced {rolls : List Rolled} {a b : σ} {faces : List Int}
    (h : Balanced ([], (⟨a, []⟩ : Recorded σ)) (rolls, ⟨b, faces⟩)) :
    (rolls.flatMap Rolled.faces).Perm faces := by
  refine List.perm_iff_count.mpr fun face => ?_
  have hface : faces.count face + 0 = 0 + shown face rolls := h face
  unfold shown at hface
  omega

/-- If an expression or a text is evaluated with success, then the same evaluation over a record of
the dice has the same end, and the faces in the log of the outcome are those on the record. -/
theorem log_accounts_for_dice (w w' : World σ) (scope : Index) (o : Outcome) :
    (∀ a : Arena, (evalArena a scope).run w = (.ok o, w') →
      ∃ faces, (evalArena a scope).run (w.recording []) = (.ok o, w'.recording faces) ∧
        (o.rolls.flatMap Rolled.faces).Perm faces) ∧
    ∀ source, (evalSource source scope).run w = (.ok o, w') →
      ∃ faces, (evalSource source scope).run (w.recording []) = (.ok o, w'.recording faces) ∧
        (o.rolls.flatMap Rolled.faces).Perm faces := by
  constructor
  · intro a hrun
    obtain ⟨faces, hrecorded, hbalanced⟩ := run_recording
      (couples_evalArena_matches Recorded.similar a scope) (turns_evalArena a scope) hrun []
    exact ⟨faces, hrecorded, perm_of_balanced hbalanced⟩
  · intro source hrun
    obtain ⟨tokens, hscan, ⟨hnil, rfl, rfl⟩ | ⟨hcons, a, part, between, hparse, heval, hroll⟩⟩ :=
      evalSource_eq_ok_iff.mp hrun
    · exact ⟨[], evalSource_eq_ok_iff.mpr ⟨tokens, hscan, .inl ⟨hnil, rfl, rfl⟩⟩, List.Perm.refl _⟩
    · obtain ⟨first, hfirst, hbalanced⟩ := run_recording
        (couples_evalArena_matches Recorded.similar a scope) (turns_evalArena a scope) heval []
      obtain ⟨faces, hrecorded, hbalanced'⟩ := run_recording
        (couples_onDice_matches (Outcome.couples_resolved Recorded.similar part))
        (turns_onDice (Outcome.turns_resolved part)) hroll first
      refine ⟨faces, evalSource_eq_ok_iff.mpr ⟨tokens, hscan, .inr ⟨hcons, ?_⟩⟩, ?_⟩
      · exact ⟨a, part, between.recording first, hparse, hfirst, hrecorded⟩
      · exact perm_of_balanced (hbalanced.trans hbalanced')

/-- Three dice of which two are kept. All three are in the log. -/
theorem log_accounts_for_dice_keep :
    ∃ faces,
      (evalArena ((Expr.binary .keep (.literal (.roll 3 6)) (.literal (.natural 2))).plant {}) 0).run
        (recording { dice := ({ faces := [2, 5, 3] } : ScriptedDice) } []) =
        (.ok ⟨.rolls [5, 3], [⟨⟨3, 6, false, false⟩, [2, 5, 3], 10⟩]⟩,
          recording { dice := { draws := 3 } } faces) ∧
      [2, 5, 3].Perm faces :=
  (log_accounts_for_dice { dice := ({ faces := [2, 5, 3] } : ScriptedDice) }
    { dice := { draws := 3 } } 0 ⟨.rolls [5, 3], [⟨⟨3, 6, false, false⟩, [2, 5, 3], 10⟩]⟩).1 _ (by
      simp only [evalArena, Arena.expr?_plant]
      rfl)

end World

end DiceTome
