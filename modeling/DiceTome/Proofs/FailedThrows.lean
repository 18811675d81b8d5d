import DiceTome.Dice.Scripted
import DiceTome.Proofs.DeepThrows
import DiceTome.Proofs.Failures

/-!
# Failed throws

A deep throw stops at the first roll that is refused. The value of the outcome is then the old one,
with all of its dice, but the rolls in front of the refused one stay in the log and the dice behind
them are spent: the next conversion throws them again and logs them again. Only where the refused
roll is the first of the value, or where none is, does a failed throw leave the outcome alone.

* `Value.AllOrNothing`: no roll of the value is refused, or the first one is.
* `Outcome.throw_cases`: the three ways in which a conversion throws the dice of an outcome.
* `Outcome.atomic_iff`: what a refused conversion leaves behind, and when that is nothing.
-/

namespace DiceTome

open Step

variable {σ : Type}

/-- The errors with which a roll is refused. -/
def EvalError.isRefusal : EvalError → Bool
  | invalidDie _ | tooManyDice .. => true
  | _ => false

theorem Roll.isRefusal_of_refusal? {r : Roll} {err : EvalError} (h : r.refusal? = some err) :
    err.isRefusal = true := by
  unfold refusal? at h
  split at h
  · cases h
    rfl
  · split at h
    · cases h
      rfl
    · cases h

/-- Once the dice are thrown, a conversion fails only because something cannot be converted. -/
theorem Conversion.onlyUnconverted_demand (c : Conversion) (v : Value) :
    OnlyUnconverted (c.demand v) := by
  cases c with
  | decimal => exact v.onlyUnconverted_asDecimal.map _
  | natural => exact v.onlyUnconverted_asNatural.map _
  | bool => exact v.onlyUnconverted_asBool.map _
  | faces => exact v.onlyUnconverted_asRolls.map _
  | string | resolve => exact .ok _

/-- The refusal of a roll does not come from what is asked of the value. -/
theorem Conversion.demand_ne_of_isRefusal {err : EvalError} (herr : err.isRefusal = true)
    (c : Conversion) (v : Value) : c.demand v ≠ .error err := by
  intro hdemand
  have hkind := c.onlyUnconverted_demand v err hdemand
  cases err with
  | tooManyDice | invalidDie => cases hkind
  | _ => cases herr

/-! ## Values whose throw is never left halfway -/

namespace Value

/-- No roll of the value is refused, or the first one is. -/
def AllOrNothing (v : Value) : Prop :=
  (∀ r ∈ v.dice, r.refusal? = none) ∨ ∃ r err, v.dice.head? = some r ∧ r.refusal? = some err

/-- If some rolls can be thrown and the next one is refused, then nothing is left halfway only if
those were none. -/
theorem allOrNothing_iff_of_refused {v : Value} {front rest : List Roll} {r : Roll}
    {err : EvalError} (hdice : v.dice = front ++ r :: rest)
    (hfront : ∀ r ∈ front, r.refusal? = none) (hrefusal : r.refusal? = some err) :
    v.AllOrNothing ↔ front = [] := by
  rw [AllOrNothing, hdice]
  constructor
  · rintro (hnone | ⟨first, err', hfirst, hrefused⟩)
    · rw [hnone r (by simp)] at hrefusal
      cases hrefusal
    · cases front with
      | nil => rfl
      | cons s front =>
        obtain rfl : s = first := by simpa using hfirst
        rw [hfront s List.mem_cons_self] at hrefused
        cases hrefused
  · rintro rfl
    exact .inr ⟨r, err, rfl, hrefusal⟩

variable [DiceSource σ]

/-- A throw that is not deep is a deep one, or nothing happens. -/
theorem resolve_shallow (v : Value) :
    (v.resolve false : Step (List Rolled × σ) Value) = v.resolve true ∨
      (v.resolve false : Step (List Rolled × σ) Value) = pure v := by
  cases v with
  | roll => exact .inl rfl
  | list | bool | decimal | natural | outcome | rolls | string | empty => exact .inr rfl

end Value

/-! ## What a conversion leaves of an outcome -/

namespace Outcome

variable [DiceSource σ]

/-- A conversion throws no dice, or all of them, or those in front of a roll that is refused. In the
last case they are logged, and the value still holds them. -/
theorem throw_cases (deep : Bool) (o : Outcome) (d : σ) :
    ((resolve deep : Step (Outcome × σ) Value) (o, d) = (.ok o.value, (o, d))) ∨
    (∃ thrown d', Roll.Throws o.value.dice d thrown d' ∧
      (o.value.fill thrown).hasUnthrown = false ∧
      (resolve deep : Step (Outcome × σ) Value) (o, d) =
        (.ok (o.value.fill thrown), (⟨o.value.fill thrown, o.rolls ++ thrown⟩, d'))) ∨
    ∃ front r rest thrown err d', o.value.dice = front ++ r :: rest ∧
      Roll.Throws front d thrown d' ∧ r.refusal? = some err ∧
      (resolve deep : Step (Outcome × σ) Value) (o, d) =
        (.error err, (⟨o.value, o.rolls ++ thrown⟩, d')) := by
  rw [run_resolve]
  have hdeep : (o.value.resolve deep : Step (List Rolled × σ) Value) = o.value.resolve true ∨
      (o.value.resolve deep : Step (List Rolled × σ) Value) = pure o.value := by
    cases deep with
    | true => exact .inl rfl
    | false => exact Value.resolve_shallow o.value
  rcases hdeep with hdeep | hdeep
  · rw [hdeep]
    have hthrown := Value.ends_resolve_thrown o.value (o.rolls, d)
    rcases Value.resolve_cases o.value o.rolls d with ⟨thrown, d', hthrows, hrun⟩ |
      ⟨front, r, rest, thrown, err, d', hdice, hthrows, hrefusal, hrun⟩
    · rw [Ends, hrun] at hthrown
      rw [hrun]
      exact .inr (.inl ⟨thrown, d', hthrows, hthrown _ rfl, rfl⟩)
    · rw [hrun]
      exact .inr (.inr ⟨front, r, rest, thrown, err, d', hdice, hthrows, hrefusal, rfl⟩)
  · rw [hdeep]
    exact .inl rfl

/-- A refused conversion has thrown and logged the rolls in front of the refused one, and has left
the value as it was. -/
theorem exists_refused {o : Outcome} {d : σ} {c : Conversion} {err : EvalError} {st : Outcome × σ}
    (hrun : c.step.run (o, d) = (.error err, st)) (herr : err.isRefusal = true) :
    ∃ front r rest thrown, o.value.dice = front ++ r :: rest ∧
      Roll.Throws front d thrown st.2 ∧ r.refusal? = some err ∧
      st.1 = ⟨o.value, o.rolls ++ thrown⟩ := by
  have hthrown : ∀ {v : Value} {st' : Outcome × σ},
      (resolve c.isDeep : Step (Outcome × σ) Value) (o, d) ≠ (.ok v, st') := by
    intro v st' hresolve
    rw [ExceptT.run, Conversion.step_eq, run_bind, hresolve] at hrun
    apply Conversion.demand_ne_of_isRefusal herr c v
    cases hdemand : c.demand v with
    | ok =>
      simp only [hdemand] at hrun
      cases hrun
    | error err' =>
      simp only [hdemand] at hrun
      cases hrun
      rfl
  rcases throw_cases c.isDeep o d with hresolve | ⟨thrown, d', -, -, hresolve⟩ |
    ⟨front, r, rest, thrown, err', d', hdice, hthrows, hrefusal, hresolve⟩
  · exact absurd hresolve hthrown
  · exact absurd hresolve hthrown
  · rw [ExceptT.run, Conversion.step_eq, run_bind, hresolve] at hrun
    cases hrun
    exact ⟨front, r, rest, thrown, hdice, hthrows, hrefusal, rfl⟩

/-- How an outcome stands to what it was before some conversions that cannot stop halfway: it is the
same, or all of its dice are thrown, each of them once. -/
def ThrownOnce (o o' : Outcome) : Prop :=
  o' = o ∨ o'.value.hasUnthrown = false ∧
    o'.rolls.length = o.rolls.length + o.value.dice.length

theorem thrownOnce_step {o : Outcome} (h : o.value.AllOrNothing) (c : Conversion) (d : σ) :
    ThrownOnce o (c.step (o, d)).2.1 := by
  rw [Conversion.run_step]
  rcases throw_cases c.isDeep o d with hrun | ⟨thrown, d', hthrows, hnone, hrun⟩ |
    ⟨front, r, rest, thrown, err, d', hdice, hthrows, hrefusal, hrun⟩
  · rw [hrun]
    exact .inl rfl
  · rw [hrun]
    refine .inr ⟨hnone, ?_⟩
    rw [List.length_append, hthrows.length_eq]
  · rw [hrun]
    obtain rfl :=
      (Value.allOrNothing_iff_of_refused hdice hthrows.refusal?_eq_none hrefusal).mp h
    cases hthrows
    rw [List.append_nil]
    exact .inl rfl

/-- Over any conversions, an outcome that cannot stop halfway throws each of its dice once. -/
theorem thrownOnce_runAll {o : Outcome} (h : o.value.AllOrNothing) (cs : List Conversion) (d : σ) :
    ThrownOnce o (Conversion.runAll cs (o, d)).1 := by
  induction cs generalizing d with
  | nil => exact .inl rfl
  | cons c cs ih =>
    have hfirst := thrownOnce_step h c d
    rw [Conversion.runAll, List.foldl_cons]
    generalize (c.step (o, d)).2 = st at hfirst
    obtain ⟨o', d'⟩ := st
    rcases hfirst with hsame | hthrown
    · obtain rfl : o' = o := hsame
      exact ih d'
    · have hrest := Conversion.runAll_of_thrown hthrown.1 cs d'
      rw [Conversion.runAll] at hrest
      rw [hrest]
      exact .inr hthrown

/-- An outcome that stops halfway keeps its dice, and its log gains rolls. -/
theorem exists_more_logged {v : Value} (h : ¬ v.AllOrNothing) (log : List Rolled) (d : σ) :
    ∃ log' d', log.length < log'.length ∧
      (Conversion.decimal.step (⟨v, log⟩, d)).2 = (⟨v, log'⟩, d') := by
  rw [Conversion.run_step, run_resolve]
  simp only [Conversion.isDeep]
  rcases Value.resolve_cases v log d with ⟨thrown, d', hthrows, -⟩ |
    ⟨front, r, rest, thrown, err, d', hdice, hthrows, hrefusal, hrun⟩
  · exact absurd (.inl hthrows.refusal?_eq_none) h
  · have hfront : front ≠ [] := fun hnil =>
      h ((Value.allOrNothing_iff_of_refused hdice hthrows.refusal?_eq_none hrefusal).mpr hnil)
    refine ⟨log ++ thrown, d', ?_, by rw [hrun]⟩
    rw [List.length_append, hthrows.length_eq]
    exact Nat.lt_add_of_pos_right (List.length_pos_iff.mpr hfront)

/-- The log of an outcome that stops halfway grows with every conversion to a number. -/
theorem le_length_runAll_replicate {v : Value} (h : ¬ v.AllOrNothing) (n : Nat)
    (log : List Rolled) (d : σ) :
    log.length + n ≤ (Conversion.runAll (.replicate n .decimal) (⟨v, log⟩, d)).1.rolls.length := by
  induction n generalizing log d with
  | zero => exact Nat.le_refl _
  | succ n ih =>
    obtain ⟨log', d', hmore, hstep⟩ := exists_more_logged h log d
    have hrest := ih log' d'
    rw [Conversion.runAll, List.replicate_succ, List.foldl_cons, hstep]
    rw [Conversion.runAll] at hrest
    omega

/-! ## Atomic conversions -/

/-- Refused conversions leave an outcome alone exactly if it cannot stop halfway. -/
theorem kept_iff_allOrNothing (o : Outcome) (d : σ) :
    (∀ (c : Conversion) err (st : Outcome × σ),
      c.step.run (o, d) = (.error err, st) → err.isRefusal = true → st.1 = o) ↔
        o.value.AllOrNothing := by
  constructor
  · intro hkept
    rcases Value.resolve_cases o.value o.rolls d with ⟨thrown, d', hthrows, -⟩ |
      ⟨front, r, rest, thrown, err, d', hdice, hthrows, hrefusal, hrun⟩
    · exact .inl hthrows.refusal?_eq_none
    · have hsame : (⟨o.value, o.rolls ++ thrown⟩ : Outcome) = o := by
        refine hkept (.resolve true) err (_, d') ?_ (Roll.isRefusal_of_refusal? hrefusal)
        rw [ExceptT.run, Conversion.step_eq, run_bind, run_resolve]
        simp only [Conversion.isDeep, hrun]
      have hnil : thrown = [] := by simpa using congrArg Outcome.rolls hsame
      rw [Value.allOrNothing_iff_of_refused hdice hthrows.refusal?_eq_none hrefusal,
        ← List.length_eq_zero_iff, ← hthrows.length_eq, hnil, List.length_nil]
  · intro h c err st hrun herr
    obtain ⟨front, r, rest, thrown, hdice, hthrows, hrefusal, hst⟩ := exists_refused hrun herr
    obtain rfl :=
      (Value.allOrNothing_iff_of_refused hdice hthrows.refusal?_eq_none hrefusal).mp h
    cases hthrows
    rw [hst, List.append_nil]

/-- Conversions never log more rolls than an outcome holds exactly if it cannot stop halfway. -/
theorem length_le_iff_allOrNothing (o : Outcome) (d : σ) :
    (∀ cs, (Conversion.runAll cs (o, d)).1.rolls.length ≤ o.rolls.length + o.value.dice.length) ↔
      o.value.AllOrNothing := by
  constructor
  · intro hbound
    by_contra h
    have hmany := le_length_runAll_replicate h (o.value.dice.length + 1) o.rolls d
    have hfew := hbound (.replicate (o.value.dice.length + 1) .decimal)
    exact absurd (hmany.trans hfew) (by omega)
  · intro h cs
    rcases thrownOnce_runAll h cs d with hsame | ⟨-, hlength⟩
    · rw [hsame]
      exact Nat.le_add_right ..
    · exact hlength.le

/-- A conversion that is refused a roll leaves the value as it was and has logged the rolls in front
of that roll. It leaves the whole outcome as it was, and conversions never log more rolls than the
value holds, exactly if no roll of the value is refused or the first one is. -/
theorem atomic_iff (o : Outcome) (d : σ) :
    (∀ (c : Conversion) err (st : Outcome × σ),
      c.step.run (o, d) = (.error err, st) → err.isRefusal = true →
        ∃ front r rest thrown, o.value.dice = front ++ r :: rest ∧
          Roll.Throws front d thrown st.2 ∧ r.refusal? = some err ∧
          st.1 = ⟨o.value, o.rolls ++ thrown⟩) ∧
    ((∀ (c : Conversion) err (st : Outcome × σ),
      c.step.run (o, d) = (.error err, st) → err.isRefusal = true → st.1 = o) ↔
        o.value.AllOrNothing) ∧
    ((∀ cs, (Conversion.runAll cs (o, d)).1.rolls.length ≤
      o.rolls.length + o.value.dice.length) ↔ o.value.AllOrNothing) :=
  ⟨fun _ _ _ => exists_refused, kept_iff_allOrNothing o d, length_le_iff_allOrNothing o d⟩

/-- A list of a roll that can be thrown and of one whose die has no faces. -/
def halfRefused : Outcome :=
  ⟨.list [.roll ⟨1, 6, false, false⟩, .roll ⟨1, 0, false, false⟩], []⟩

/-- The first roll of the list is thrown and logged, and more so with every further conversion. -/
theorem atomic_iff_halfRefused :
    (∃ front r rest thrown, halfRefused.value.dice = front ++ r :: rest ∧
      Roll.Throws front (⟨[4, 2, 5], 1, 0⟩ : ScriptedDice) thrown ⟨[2, 5], 1, 1⟩ ∧
      r.refusal? = some (.invalidDie 0) ∧
      (⟨halfRefused.value, [⟨⟨1, 6, false, false⟩, [4], 4⟩]⟩ : Outcome) =
        ⟨halfRefused.value, halfRefused.rolls ++ thrown⟩) ∧
    ¬ ∀ cs, (Conversion.runAll cs (halfRefused, (⟨[4, 2, 5], 1, 0⟩ : ScriptedDice))).1.rolls.length
      ≤ 2 := by
  obtain ⟨hrefused, -, hbound⟩ := atomic_iff halfRefused (⟨[4, 2, 5], 1, 0⟩ : ScriptedDice)
  refine ⟨hrefused .decimal (.invalidDie 0) _ rfl rfl, fun h => ?_⟩
  rcases hbound.mp h with hnone | ⟨r, err, hfirst, hrefusal⟩
  · exact absurd (hnone ⟨1, 0, false, false⟩ (by decide)) (by decide)
  · cases hfirst
    cases hrefusal

/-- Conversions that fail can change an outcome, and can log more rolls than it holds. -/
theorem not_atomic :
    (¬ ∀ (o : Outcome) (dice : ScriptedDice) (c : Conversion) err st,
      c.step.run (o, dice) = (.error err, st) → err.isRefusal = true → st.1 = o) ∧
    ¬ ∀ (o : Outcome) (dice : ScriptedDice) cs,
      (Conversion.runAll cs (o, dice)).1.rolls.length ≤ o.rolls.length + o.value.dice.length := by
  constructor
  · intro h
    have hsame := h halfRefused ⟨[4, 2, 5], 1, 0⟩ .decimal (.invalidDie 0) _ rfl rfl
    have hlogged : [(⟨⟨1, 6, false, false⟩, [4], 4⟩ : Rolled)] = [] := congrArg rolls hsame
    cases hlogged
  · intro h
    have hthree := h halfRefused ⟨[4, 2, 5], 1, 0⟩ [.decimal, .decimal, .decimal]
    exact absurd hthree (by decide)

end Outcome

end DiceTome
