import DiceTome.Proofs.DiceLog

/-!
# Deep throws

A deep throw goes through the value of an outcome from left to right and throws every roll that it
comes to, also inside lists. Each thrown roll takes the place of its dice and is entered into the
log, and after that there is nothing left to throw.

* `Value.dice` are the rolls that a value holds, and `Value.fill` puts thrown rolls in their places.
* `Roll.Throws`: some rolls are thrown one after another.
* `Value.resolve_cases`: a deep throw throws the rolls of the value, up to the first refused one.
* `Value.resolveSparing` passes over lists without dice, which makes no difference.
* `Conversion` lists the conversions of an outcome, and `Conversion.runAll` makes some in a row.
* `Outcome.resolve_fills`: what a deep throw leaves behind, and that no conversion changes it again.
-/

namespace DiceTome

open Step

variable {σ : Type}

/-! ## Rolls thrown one after another -/

namespace Roll

/-- The reason why the roll cannot be thrown, whatever the dice show: its die has no faces, or there
are too many dice. -/
def refusal? (r : Roll) : Option EvalError :=
  if r.die < 1 then some (.invalidDie r.die)
  else if maxDice < r.count then some (.tooManyDice r.count maxDice)
  else none

variable [DiceSource σ]

/-- A roll is refused before any draw, and thrown otherwise. -/
theorem throw_eq (r : Roll) (d : σ) :
    r.throw d =
      match r.refusal? with
      | some err => (.error err, d)
      | none =>
        let drawn := drawFaces r.die r.count.toNat d
        (.ok ⟨r, drawn.1, r.resultOf drawn.1⟩, drawn.2) := by
  unfold refusal?
  by_cases hdie : r.die < 1
  · simp only [throw, if_pos hdie]
    rfl
  by_cases hmany : maxDice < r.count
  · simp only [throw, if_neg hdie, if_pos hmany]
    rfl
  · simp only [throw, if_neg hdie, if_neg hmany]
    rfl

theorem throw_of_refusal? {r : Roll} {err : EvalError} (h : r.refusal? = some err) (d : σ) :
    r.throw d = (.error err, d) := by
  rw [throw_eq, h]

theorem exists_throw {r : Roll} (h : r.refusal? = none) (d : σ) :
    ∃ rolled d', rolled.roll = r ∧ r.throw d = (.ok rolled, d') := by
  rw [throw_eq, h]
  exact ⟨_, _, rfl, rfl⟩

/-- A roll that is thrown was not refused, and the thrown roll tells what it was. -/
theorem of_throw {r : Roll} {d d' : σ} {rolled : Rolled} (h : r.throw d = (.ok rolled, d')) :
    r.refusal? = none ∧ rolled.roll = r := by
  rw [throw_eq] at h
  cases hrefusal : r.refusal? with
  | some err =>
    rw [hrefusal] at h
    cases h
  | none =>
    rw [hrefusal] at h
    cases h
    exact ⟨rfl, rfl⟩

/-- The rolls are thrown one after another, each with the dice that the one before has left. -/
inductive Throws : List Roll → σ → List Rolled → σ → Prop
  | nil (d : σ) : Throws [] d [] d
  | cons {r : Roll} {rs : List Roll} {rolled : Rolled} {thrown : List Rolled} {d d' d'' : σ}
    (h : r.throw d = (.ok rolled, d')) (hs : Throws rs d' thrown d'') :
    Throws (r :: rs) d (rolled :: thrown) d''

namespace Throws

variable {rs rs' : List Roll} {thrown thrown' : List Rolled} {d d' d'' : σ}

theorem append (h : Throws rs d thrown d') (h' : Throws rs' d' thrown' d'') :
    Throws (rs ++ rs') d (thrown ++ thrown') d'' := by
  induction h with
  | nil => exact h'
  | cons hr _ ih => exact .cons hr (ih h')

theorem single {r : Roll} {rolled : Rolled} (h : r.throw d = (.ok rolled, d')) :
    Throws [r] d [rolled] d' :=
  .cons h (.nil d')

theorem map_roll (h : Throws rs d thrown d') : thrown.map Rolled.roll = rs := by
  induction h with
  | nil => rfl
  | cons hr _ ih => rw [List.map_cons, ih, (of_throw hr).2]

theorem length_eq (h : Throws rs d thrown d') : thrown.length = rs.length := by
  rw [← h.map_roll, List.length_map]

theorem refusal?_eq_none (h : Throws rs d thrown d') : ∀ r ∈ rs, r.refusal? = none := by
  induction h with
  | nil => exact List.forall_mem_nil _
  | cons hr _ ih => exact List.forall_mem_cons.mpr ⟨(of_throw hr).1, ih⟩

/-- The dice decide what is thrown. -/
theorem unique (h : Throws rs d thrown d') (h' : Throws rs d thrown' d'') :
    thrown = thrown' ∧ d' = d'' := by
  induction h generalizing thrown' d'' with
  | nil =>
    cases h'
    exact ⟨rfl, rfl⟩
  | cons hr _ ih =>
    cases h' with
    | cons hr' hs' =>
      rw [hr] at hr'
      cases hr'
      obtain ⟨rfl, rfl⟩ := ih hs'
      exact ⟨rfl, rfl⟩

end Throws

end Roll

/-! ## The dice of a value -/

namespace Value

mutual

/-- The rolls in the value that have not been thrown, from left to right and at any depth. -/
def dice : Value → List Roll
  | roll r => [r]
  | list items => diceAll items
  | _ => []

/-- The rolls in the values that have not been thrown. -/
def diceAll : List Value → List Roll
  | [] => []
  | v :: vs => v.dice ++ diceAll vs

end

mutual

/-- The value with thrown rolls in the places of its dice, from left to right. -/
def fill : Value → List Rolled → Value
  | roll _, rolled :: _ => outcome rolled
  | list items, thrown => list (fillAll items thrown)
  | v, _ => v

/-- The values with thrown rolls in the places of their dice. -/
def fillAll : List Value → List Rolled → List Value
  | [], _ => []
  | v :: vs, thrown =>
    v.fill (thrown.take v.dice.length) :: fillAll vs (thrown.drop v.dice.length)

end

theorem fillAll_append {v : Value} {vs : List Value} {thrown thrown' : List Rolled}
    (h : thrown.length = v.dice.length) :
    fillAll (v :: vs) (thrown ++ thrown') = v.fill thrown :: fillAll vs thrown' := by
  rw [fillAll, ← h, List.take_left, List.drop_left]

mutual

theorem dice_eq_nil_iff : ∀ v : Value, v.dice = [] ↔ v.hasUnthrown = false
  | roll r => by simp [dice, hasUnthrown]
  | list items => by rw [dice, hasUnthrown, diceAll_eq_nil_iff items]
  | bool _ | decimal _ | natural _ | outcome _ | rolls _ | string _ | empty => by
    simp [dice, hasUnthrown]

theorem diceAll_eq_nil_iff : ∀ vs : List Value, diceAll vs = [] ↔ anyUnthrown vs = false
  | [] => by simp [diceAll, anyUnthrown]
  | v :: vs => by
    rw [diceAll, anyUnthrown, List.append_eq_nil_iff, Bool.or_eq_false_iff, dice_eq_nil_iff v,
      diceAll_eq_nil_iff vs]

end

/-! ## Throwing them -/

variable [DiceSource σ]

theorem throwLogged_of_throw {r : Roll} {rolled : Rolled} {d d' : σ}
    (h : r.throw d = (.ok rolled, d')) (log : List Rolled) :
    throwLogged r (log, d) = (.ok (.outcome rolled), (log ++ [rolled], d')) := by
  simp only [throwLogged, run_bind, within, ExceptT.run, h]
  rfl

theorem throwLogged_of_refusal? {r : Roll} {err : EvalError} (h : r.refusal? = some err)
    (log : List Rolled) (d : σ) : throwLogged r (log, d) = (.error err, (log, d)) := by
  simp only [throwLogged, run_bind, within, ExceptT.run, Roll.throw_of_refusal? h]

/-- How a deep throw of values with the given dice goes: every roll is thrown, which makes the value
that `filled` tells, or one is refused after those in front of it have been thrown and logged. -/
def ThrownOrRefused (rs : List Roll) (filled : List Rolled → α) (log : List Rolled) (d : σ)
    (run : Except EvalError α × List Rolled × σ) : Prop :=
  (∃ thrown d', Roll.Throws rs d thrown d' ∧ run = (.ok (filled thrown), (log ++ thrown, d'))) ∨
  ∃ front r rest thrown err d', rs = front ++ r :: rest ∧ Roll.Throws front d thrown d' ∧
    r.refusal? = some err ∧ run = (.error err, (log ++ thrown, d'))

theorem thrownOrRefused_nil (filled : List Rolled → α) (log : List Rolled) (d : σ) :
    ThrownOrRefused [] filled log d (.ok (filled []), (log, d)) :=
  .inl ⟨[], d, .nil d, by rw [List.append_nil]⟩

mutual

/-- A deep throw throws the rolls of the value in order, and stops at one that is refused. -/
theorem resolve_cases : ∀ (v : Value) (log : List Rolled) (d : σ),
    ThrownOrRefused v.dice v.fill log d (v.resolve true (log, d))
  | roll r, log, d => by
    rw [resolve]
    cases hrefusal : r.refusal? with
    | none =>
      obtain ⟨rolled, d', -, hthrow⟩ := Roll.exists_throw hrefusal d
      exact .inl ⟨[rolled], d', .single hthrow, throwLogged_of_throw hthrow log⟩
    | some err =>
      refine .inr ⟨[], r, [], [], err, d, rfl, .nil d, hrefusal, ?_⟩
      rw [throwLogged_of_refusal? hrefusal, List.append_nil]
  | list items, log, d => by
    have hrun : (list items).resolve true (log, d) =
        (list <$> resolveAll true items : Step (List Rolled × σ) Value) (log, d) := rfl
    rw [hrun, map_eq_pure_bind, run_bind]
    rcases resolveAll_cases items log d with ⟨thrown, d', hthrows, hitems⟩ |
      ⟨front, r, rest, thrown, err, d', hdice, hthrows, hrefusal, hitems⟩
    · rw [hitems]
      exact .inl ⟨thrown, d', hthrows, rfl⟩
    · rw [hitems]
      exact .inr ⟨front, r, rest, thrown, err, d', hdice, hthrows, hrefusal, rfl⟩
  | bool _, log, d | decimal _, log, d | natural _, log, d | outcome _, log, d | rolls _, log, d
  | string _, log, d | empty, log, d => thrownOrRefused_nil _ log d

theorem resolveAll_cases : ∀ (vs : List Value) (log : List Rolled) (d : σ),
    ThrownOrRefused (diceAll vs) (fillAll vs) log d (resolveAll true vs (log, d))
  | [], log, d => thrownOrRefused_nil _ log d
  | v :: vs, log, d => by
    rw [resolveAll, run_bind]
    rcases resolve_cases v log d with ⟨thrown, d', hthrows, hv⟩ |
      ⟨front, r, rest, thrown, err, d', hdice, hthrows, hrefusal, hv⟩
    · rw [hv]
      simp only [run_bind]
      rcases resolveAll_cases vs (log ++ thrown) d' with ⟨more, d'', hmore, hvs⟩ |
        ⟨front, r, rest, more, err, d'', hdice, hmore, hrefusal, hvs⟩
      · rw [hvs, List.append_assoc]
        refine .inl ⟨thrown ++ more, d'', hthrows.append hmore, ?_⟩
        rw [fillAll_append hthrows.length_eq]
        rfl
      · rw [hvs, List.append_assoc]
        refine .inr ⟨v.dice ++ front, r, rest, thrown ++ more, err, d'', ?_, hthrows.append hmore,
          hrefusal, rfl⟩
        rw [diceAll, hdice, List.append_assoc]
    · rw [hv]
      refine .inr ⟨front, r, rest ++ diceAll vs, thrown, err, d', ?_, hthrows, hrefusal, rfl⟩
      rw [diceAll, hdice, List.append_assoc, List.cons_append]

end

/-- A deep throw goes as the rolls of the value do when they are thrown one after another. -/
theorem resolve_of_throws {v : Value} {thrown : List Rolled} {d d' : σ}
    (h : Roll.Throws v.dice d thrown d') (log : List Rolled) :
    v.resolve true (log, d) = (.ok (v.fill thrown), (log ++ thrown, d')) := by
  rcases resolve_cases v log d with ⟨thrown', d'', hthrows, hrun⟩ |
    ⟨front, r, rest, thrown', err, d'', hdice, -, hrefusal, -⟩
  · obtain ⟨rfl, rfl⟩ := hthrows.unique h
    exact hrun
  · have hnone := h.refusal?_eq_none r (by simp [hdice])
    rw [hrefusal] at hnone
    cases hnone

mutual

/-- The value with its dice thrown, where a list without dice is passed over as it is. -/
def resolveSparing (deep : Bool) : Value → Step (List Rolled × σ) Value
  | roll r => throwLogged r
  | list items =>
    if deep && (list items).hasUnthrown then list <$> resolveSparingAll deep items
    else return list items
  | v => return v

/-- The values with their dice thrown, where lists without dice are passed over. -/
def resolveSparingAll (deep : Bool) : List Value → Step (List Rolled × σ) (List Value)
  | [] => return []
  | v :: vs => do
    let v ← v.resolveSparing deep
    let vs ← resolveSparingAll deep vs
    return v :: vs

end

mutual

/-- It makes no difference whether lists without dice are passed over. -/
theorem resolveSparing_eq (deep : Bool) : ∀ v : Value,
    (v.resolveSparing deep : Step (List Rolled × σ) Value) = v.resolve deep
  | roll r => by rw [resolveSparing, resolve]
  | list items => by
    rw [resolveSparing, resolve, resolveSparingAll_eq deep items]
    cases deep with
    | false => rfl
    | true =>
      cases hdice : (list items).hasUnthrown with
      | true => rfl
      | false =>
        funext st
        exact (resolve_of_thrown true hdice st).symm
  | bool _ | decimal _ | natural _ | outcome _ | rolls _ | string _ | empty => rfl

theorem resolveSparingAll_eq (deep : Bool) : ∀ vs : List Value,
    (resolveSparingAll deep vs : Step (List Rolled × σ) (List Value)) = resolveAll deep vs
  | [] => rfl
  | v :: vs => by
    rw [resolveSparingAll, resolveAll, resolveSparing_eq deep v, resolveSparingAll_eq deep vs]

end

end Value

/-! ## Conversions in a row -/

/-- The conversions of an outcome. -/
inductive Conversion where
  | decimal | natural | bool | string | faces
  | resolve (deep : Bool)
  deriving Repr, DecidableEq

namespace Conversion

/-- Whether the conversion throws dice inside lists as well. -/
def isDeep : Conversion → Bool
  | decimal | natural => true
  | bool | string | faces => false
  | resolve deep => deep

/-- What is asked of the value once its dice are thrown. -/
def demand : Conversion → Value → Except EvalError Unit
  | decimal, v => v.asDecimal.map fun _ => ()
  | natural, v => v.asNatural.map fun _ => ()
  | bool, v => v.asBool.map fun _ => ()
  | faces, v => v.asRolls.map fun _ => ()
  | string, _ | resolve _, _ => .ok ()

variable [DiceSource σ]

/-- The conversion, for what it does to the outcome and to the dice. -/
def step : Conversion → Step (Outcome × σ) Unit
  | decimal => do
    let _ ← Outcome.asDecimal
    return ()
  | natural => do
    let _ ← Outcome.asNatural
    return ()
  | bool => do
    let _ ← Outcome.asBool
    return ()
  | string => do
    let _ ← Outcome.asString
    return ()
  | faces => do
    let _ ← Outcome.faces
    return ()
  | resolve deep => do
    let _ ← Outcome.resolve deep
    return ()

/-- The outcome and the dice after some conversions, of which any may fail. -/
def runAll (cs : List Conversion) (st : Outcome × σ) : Outcome × σ :=
  cs.foldl (fun st c => (c.step st).2) st

/-- Every conversion throws dice first and then only looks at the value. -/
theorem step_eq (c : Conversion) :
    (c.step : Step (Outcome × σ) Unit) =
      Outcome.resolve c.isDeep >>= fun v => Step.ofExcept (c.demand v) := by
  have hlook : ∀ {α : Type} (deep : Bool) (f : Value → Except EvalError α),
      ((Outcome.resolve deep >>= fun v => Step.ofExcept (f v)) >>= fun _ => pure () :
        Step (Outcome × σ) Unit) =
        Outcome.resolve deep >>= fun v => Step.ofExcept ((f v).map fun _ => ()) := by
    intro α deep f
    rw [bind_assoc]
    congr 1
    funext v
    cases f v <;> rfl
  cases c with
  | decimal => exact hlook true Value.asDecimal
  | natural => exact hlook true Value.asNatural
  | bool => exact hlook false Value.asBool
  | faces => exact hlook false Value.asRolls
  | string => exact hlook false fun v => .ok v.asString
  | resolve deep => rfl

/-- A conversion does to the outcome what throwing its dice does. -/
theorem run_step (c : Conversion) (st : Outcome × σ) :
    (c.step st).2 = ((Outcome.resolve c.isDeep : Step (Outcome × σ) Value) st).2 := by
  rw [step_eq, run_bind]
  cases hrun : (Outcome.resolve c.isDeep : Step (Outcome × σ) Value) st with
  | mk result st' => cases result <;> rfl

theorem runAll_of_thrown {o : Outcome} (h : o.value.hasUnthrown = false) (cs : List Conversion)
    (d : σ) : runAll cs (o, d) = (o, d) := by
  induction cs with
  | nil => rfl
  | cons c cs ih =>
    rw [runAll, List.foldl_cons, run_step, Outcome.run_resolve_of_thrown h]
    exact ih

end Conversion

/-! ## Outcomes -/

namespace Outcome

variable [DiceSource σ]

/-- Throwing the dice of an outcome in terms of its value. -/
theorem run_resolve (deep : Bool) (o : Outcome) (d : σ) :
    (resolve deep : Step (Outcome × σ) Value) (o, d) =
      match o.value.resolve deep (o.rolls, d) with
      | (.ok v, (log, d')) => (.ok v, (⟨v, log⟩, d'))
      | (.error err, (log, d')) => (.error err, (⟨o.value, log⟩, d')) := by
  simp only [resolve, run_bind, run_get, within, ExceptT.run]
  cases hrun : (o.value.resolve deep : Step (List Rolled × σ) Value) (o.rolls, d) with
  | mk result st => cases result <;> rfl

/-- A deep throw that goes well leaves the value with every roll in it thrown, one after another and
from left to right, and the log with those rolls at its end. No conversion throws anything
afterwards. The same holds if lists without dice are passed over. -/
theorem resolve_fills (o o' : Outcome) (d d' : σ) (v : Value) :
    o.value.resolveSparing true = (o.value.resolve true : Step (List Rolled × σ) Value) ∧
    ((resolve true).run (o, d) = (.ok v, (o', d')) ↔
      ∃ thrown, Roll.Throws o.value.dice d thrown d' ∧
        v = o.value.fill thrown ∧ o' = ⟨v, o.rolls ++ thrown⟩ ∧ v.hasUnthrown = false ∧
        ∀ cs (d'' : σ), Conversion.runAll cs (o', d'') = (o', d'')) := by
  refine ⟨Value.resolveSparing_eq true o.value, ?_⟩
  rw [ExceptT.run, run_resolve]
  constructor
  · have hthrown := Value.ends_resolve_thrown o.value (o.rolls, d)
    rcases Value.resolve_cases o.value o.rolls d with ⟨thrown, d₁, hthrows, hrun⟩ |
      ⟨front, r, rest, thrown, err, d₁, -, -, -, hrun⟩
    · rw [Ends, hrun] at hthrown
      rw [hrun]
      rintro ⟨⟩
      have hnone := hthrown _ rfl
      exact ⟨thrown, hthrows, rfl, rfl, hnone, Conversion.runAll_of_thrown hnone⟩
    · rw [hrun]
      nofun
  · rintro ⟨thrown, hthrows, rfl, rfl, -, -⟩
    rw [Value.resolve_of_throws hthrows]

end Outcome

end DiceTome
