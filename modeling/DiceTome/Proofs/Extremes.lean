import DiceTome.Proofs.DeepThrows
import Mathlib.Data.List.Forall2

/-!
# The smallest and the largest number

A lone list in a call of `min` or `max` stands for its items. It is thrown as a whole before its
items are looked at, while items that are given one by one are thrown and looked at in turn, each
with a log of its own. Both come to the same: the dice of all items are thrown from left to right,
and then every item is a number.

* `Builtin.Numbers`: some values are some numbers.
* `Builtin.IsExtreme`: what a call for the items comes to.
* `Builtin.call_items_iff` and `Builtin.call_list_iff`: both calls come to that.
* `Builtin.call_list_iff_call_items`: a call with a list and one with its items are the same.
-/

namespace DiceTome

open Step

variable {σ : Type}

/-- Two computations one after another succeed if both do. -/
theorem Step.bind_ok_iff {s : Type} {x : Step s α} {f : α → Step s β} {b : β} {st st'' : s} :
    (x >>= f) st = (.ok b, st'') ↔ ∃ a st', x st = (.ok a, st') ∧ f a st' = (.ok b, st'') := by
  rw [run_bind]
  constructor
  · intro h
    cases hrun : x st with
    | mk result st' =>
      rw [hrun] at h
      cases result with
      | error err => cases h
      | ok a => exact ⟨a, st', rfl, h⟩
  · rintro ⟨a, st', hrun, hrest⟩
    rw [hrun]
    exact hrest

theorem Step.ofExcept_ok_iff {s : Type} {result : Except EvalError α} {a : α} {st st' : s} :
    (ofExcept result : Step s α) st = (.ok a, st') ↔ result = .ok a ∧ st' = st := by
  constructor
  · rintro ⟨⟩
    exact ⟨rfl, rfl⟩
  · rintro ⟨rfl, rfl⟩
    rfl

theorem Step.pure_ok_iff {s : Type} {a b : α} {st st' : s} :
    (pure a : Step s α) st = (.ok b, st') ↔ b = a ∧ st' = st := by
  constructor
  · rintro ⟨⟩
    exact ⟨rfl, rfl⟩
  · rintro ⟨rfl, rfl⟩
    rfl

variable [DiceSource σ]

/-- Rolls of two lists that are thrown one after another. -/
theorem Roll.throws_append_iff {rs rs' : List Roll} {d d'' : σ} {thrown : List Rolled} :
    Throws (rs ++ rs') d thrown d'' ↔ ∃ front behind d', thrown = front ++ behind ∧
      Throws rs d front d' ∧ Throws rs' d' behind d'' := by
  constructor
  · intro h
    induction rs generalizing d thrown with
    | nil => exact ⟨[], thrown, d, rfl, .nil d, h⟩
    | cons r rs ih =>
      cases h with
      | cons hr hs =>
        obtain ⟨front, behind, d', rfl, hfront, hbehind⟩ := ih hs
        exact ⟨_ :: front, behind, d', rfl, .cons hr hfront, hbehind⟩
  · rintro ⟨front, behind, d', rfl, hfront, hbehind⟩
    exact hfront.append hbehind

namespace Value

theorem resolve_ok_iff {v v' : Value} {log log' : List Rolled} {d d' : σ} :
    v.resolve true (log, d) = (.ok v', (log', d')) ↔ ∃ thrown, Roll.Throws v.dice d thrown d' ∧
      v' = v.fill thrown ∧ log' = log ++ thrown := by
  constructor
  · intro h
    rcases resolve_cases v log d with ⟨thrown, d₁, hthrows, hrun⟩ |
      ⟨front, r, rest, thrown, err, d₁, -, -, -, hrun⟩
    · rw [hrun] at h
      cases h
      exact ⟨thrown, hthrows, rfl, rfl⟩
    · rw [hrun] at h
      cases h
  · rintro ⟨thrown, hthrows, rfl, rfl⟩
    exact resolve_of_throws hthrows log

mutual

/-- Where nothing is thrown, the value stays. -/
theorem fill_nil : ∀ v : Value, v.fill [] = v
  | list items => by rw [fill, fillAll_nil items]
  | roll _ | bool _ | decimal _ | natural _ | outcome _ | rolls _ | string _ | empty => rfl

theorem fillAll_nil : ∀ vs : List Value, fillAll vs [] = vs
  | [] => rfl
  | v :: vs => by rw [fillAll, List.take_nil, List.drop_nil, fill_nil v, fillAll_nil vs]

end

/-- Once the rolls of some values are thrown, there are none left. -/
theorem diceAll_fillAll {vs : List Value} {thrown : List Rolled} {d d' : σ}
    (h : Roll.Throws (diceAll vs) d thrown d') : diceAll (fillAll vs thrown) = [] := by
  have hthrows : Roll.Throws (list vs).dice d thrown d' := by rwa [dice]
  have hthrown := ends_resolve_thrown (list vs) ([], d)
  rw [Ends, resolve_of_throws hthrows] at hthrown
  have hnone := hthrown _ rfl
  rwa [fill, ← dice_eq_nil_iff, dice] at hnone

end Value

namespace Outcome

omit [DiceSource σ] in
theorem through_ok_iff {step : Step (Outcome × σ) α} {o o' : Outcome} {a : α} {d d' : σ} :
    o.through step d = (.ok (a, o'), d') ↔ step (o, d) = (.ok a, (o', d')) := by
  unfold through
  rw [ExceptT.run]
  cases step (o, d) with
  | mk result st =>
    cases result with
    | error err => exact ⟨nofun, nofun⟩
    | ok a' =>
      constructor
      · rintro ⟨⟩
        rfl
      · rintro ⟨⟩
        rfl

/-- The dice of an outcome are thrown into its log. -/
theorem resolve_ok_iff {o o' : Outcome} {v : Value} {d d' : σ} :
    (resolve true : Step (Outcome × σ) Value) (o, d) = (.ok v, (o', d')) ↔
      ∃ thrown, Roll.Throws o.value.dice d thrown d' ∧ v = o.value.fill thrown ∧
        o' = ⟨v, o.rolls ++ thrown⟩ := by
  rw [run_resolve]
  constructor
  · intro h
    split at h
    next v' log d'' hrun =>
      obtain ⟨thrown, hthrows, rfl, rfl⟩ := Value.resolve_ok_iff.mp hrun
      cases h
      exact ⟨thrown, hthrows, rfl, rfl⟩
    next => cases h
  · rintro ⟨thrown, hthrows, rfl, rfl⟩
    rw [Value.resolve_ok_iff.mpr ⟨thrown, hthrows, rfl, rfl⟩]

/-- The number of an outcome, whose dice are thrown for it. -/
theorem through_asDecimal_ok_iff {o o' : Outcome} {total : Total} {d d' : σ} :
    o.through asDecimal d = (.ok (total, o'), d') ↔
      ∃ thrown, Roll.Throws o.value.dice d thrown d' ∧
        (o.value.fill thrown).asDecimal = .ok total ∧
          o' = ⟨o.value.fill thrown, o.rolls ++ thrown⟩ := by
  rw [through_ok_iff, asDecimal, bind_ok_iff]
  constructor
  · rintro ⟨v, ⟨o', d'⟩, hresolve, hnumber⟩
    obtain ⟨thrown, hthrows, rfl, rfl⟩ := resolve_ok_iff.mp hresolve
    obtain ⟨htotal, heq⟩ := ofExcept_ok_iff.mp hnumber
    cases heq
    exact ⟨thrown, hthrows, htotal, rfl⟩
  · rintro ⟨thrown, hthrows, htotal, rfl⟩
    exact ⟨_, _, resolve_ok_iff.mpr ⟨thrown, hthrows, rfl, rfl⟩, ofExcept_ok_iff.mpr ⟨htotal, rfl⟩⟩

end Outcome

namespace Builtin

/-- The values are these numbers. -/
def Numbers (vs : List Value) (xs : List Float) : Prop :=
  List.Forall₂ (fun v x => ∃ total, v.asDecimal = .ok total ∧ total.toFloat = x) vs xs

/-- Values as arguments of a call. -/
def fresh (vs : List Value) : List Outcome :=
  vs.map fun v => { value := v }

/-- The numbers of some arguments: their dice are thrown one after another, as if each was not
looked at before all are thrown. -/
theorem decimalsOf_ok_iff {vs : List Value} {xs : List Float} {thrown : List Rolled} {d d' : σ} :
    (∃ os, decimalsOf (fresh vs) d = (.ok (xs, os), d') ∧ os.flatMap Outcome.rolls = thrown) ↔
      Roll.Throws (Value.diceAll vs) d thrown d' ∧ Numbers (Value.fillAll vs thrown) xs := by
  induction vs generalizing xs thrown d with
  | nil =>
    constructor
    · rintro ⟨os, hrun, rfl⟩
      cases hrun
      exact ⟨.nil _, .nil⟩
    · rintro ⟨hthrows, hxs⟩
      cases hthrows
      cases hxs
      exact ⟨[], rfl, rfl⟩
  | cons v vs ih =>
    have hstep : decimalsOf (fresh (v :: vs)) = ((⟨v, []⟩ : Outcome).through Outcome.asDecimal >>=
        fun r => decimalsOf (fresh vs) >>= fun rs =>
          pure (r.1.toFloat :: rs.1, r.2 :: rs.2) : Step σ (List Float × List Outcome)) := rfl
    simp only [hstep, bind_ok_iff, pure_ok_iff]
    rw [Value.diceAll, Roll.throws_append_iff]
    constructor
    · rintro ⟨os, ⟨⟨total, o⟩, d₁, hfirst, ⟨xs', os'⟩, d₂, hrest, heq, rfl⟩, rfl⟩
      cases heq
      obtain ⟨front, hfront, htotal, rfl⟩ := Outcome.through_asDecimal_ok_iff.mp hfirst
      obtain ⟨hbehind, hxs⟩ := ih.mp ⟨os', hrest, rfl⟩
      refine ⟨⟨front, _, d₁, by simp, hfront, hbehind⟩, ?_⟩
      rw [List.flatMap_cons, List.nil_append, Value.fillAll_append hfront.length_eq]
      exact .cons ⟨total, htotal, rfl⟩ hxs
    · rintro ⟨⟨front, behind, d₁, rfl, hfront, hbehind⟩, hxs⟩
      rw [Value.fillAll_append hfront.length_eq] at hxs
      cases hxs with
      | cons hx hxs =>
        obtain ⟨total, htotal, rfl⟩ := hx
        obtain ⟨os, hrest, rfl⟩ := ih.mpr ⟨hbehind, hxs⟩
        exact ⟨_, ⟨⟨total, _⟩, d₁, Outcome.through_asDecimal_ok_iff.mpr
          ⟨front, hfront, htotal, rfl⟩, ⟨_, os⟩, _, hrest, rfl, rfl⟩, rfl⟩

/-- Values without dice throw nothing. -/
theorem decimalsOf_ok_iff_of_thrown {vs : List Value} (h : Value.diceAll vs = []) {xs : List Float}
    {d d' : σ} : (∃ os, decimalsOf (fresh vs) d = (.ok (xs, os), d')) ↔ Numbers vs xs ∧ d' = d := by
  constructor
  · rintro ⟨os, hrun⟩
    obtain ⟨hthrows, hxs⟩ := decimalsOf_ok_iff.mp ⟨os, hrun, rfl⟩
    rw [h] at hthrows
    generalize os.flatMap Outcome.rolls = thrown at hthrows hxs
    cases hthrows
    rw [Value.fillAll_nil] at hxs
    exact ⟨hxs, rfl⟩
  · rintro ⟨hxs, rfl⟩
    rw [← Value.fillAll_nil vs] at hxs
    obtain ⟨os, hrun, -⟩ := decimalsOf_ok_iff.mpr ⟨by rw [h]; exact .nil d', hxs⟩
    exact ⟨os, hrun⟩

/-- The number that wins among some numbers, where a later one has to be better to win. -/
def winner (better : Float → Float → Bool) (xs : List Float) : Float :=
  xs.tail.foldl (fun best x => if better x best then x else best) (xs.headD 0)

/-- What a call for some items comes to: their rolls are thrown from left to right and logged, all
items are numbers then, and the best of these is the result. -/
def IsExtreme (better : Float → Float → Bool) (vs : List Value) (d : σ)
    (reply : Outcome × Option String) (d' : σ) : Prop :=
  ∃ thrown xs, Roll.Throws (Value.diceAll vs) d thrown d' ∧ Numbers (Value.fillAll vs thrown) xs ∧
    reply = (⟨.decimal (winner better xs), thrown⟩, none)

/-- When a number wins against another one. -/
def isBetter : Builtin → Float → Float → Bool
  | max => fun x best => best < x
  | _ => fun x best => x < best

/-- A call of one of the two functions. -/
theorem call_extreme_iff {f : Builtin} (hf : f = min ∨ f = max) {args : List Value}
    (hargs : args ≠ []) {reply : Outcome × Option String} {d d' : σ} :
    call f.name args d = (.ok reply, d') ↔ ∃ r, extreme f.isBetter (fresh args) d = (.ok r, d') ∧
      reply = (.gather r.value r.args, r.printed) := by
  have hname : ofName? f.name = some f := by
    rcases hf with rfl | rfl <;> decide
  have haccepts : f.accepts args.length = true := by
    rcases hf with rfl | rfl <;> exact decide_eq_true (List.length_pos_iff.mpr hargs)
  have hrun : (f.run (fresh args) : Step σ Reply) = extreme f.isBetter (fresh args) := by
    rcases hf with rfl | rfl <;> rfl
  have hcall : (call f.name args : Step σ (Outcome × Option String)) =
      extreme f.isBetter (fresh args) >>= fun r => pure (.gather r.value r.args, r.printed) := by
    simp only [call, hname, haccepts, if_true]
    exact congrArg (· >>= _) hrun
  simp only [hcall, bind_ok_iff, pure_ok_iff]
  constructor
  · rintro ⟨r, d₁, hextreme, rfl, rfl⟩
    exact ⟨r, hextreme, rfl⟩
  · rintro ⟨r, hextreme, rfl⟩
    exact ⟨r, d', hextreme, rfl, rfl⟩

/-- A call for some items that are given one by one. -/
theorem call_items_iff {f : Builtin} (hf : f = min ∨ f = max) {items : List Value}
    (hmany : 2 ≤ items.length) {reply : Outcome × Option String} {d d' : σ} :
    call f.name items d = (.ok reply, d') ↔ IsExtreme f.isBetter items d reply d' := by
  have hne : items ≠ [] := by
    rintro rfl
    cases hmany
  have hextreme : (extreme f.isBetter (fresh items) : Step σ Reply) =
      decimalsOf (fresh items) >>= fun r =>
        pure { value := .decimal (winner f.isBetter r.1), args := r.2 } := by
    obtain _ | ⟨v, _ | ⟨w, items⟩⟩ := items
    · cases hmany
    · exact absurd hmany (Nat.not_succ_le_self 1)
    · rfl
  rw [call_extreme_iff hf hne, hextreme]
  simp only [bind_ok_iff, pure_ok_iff]
  constructor
  · rintro ⟨r, ⟨⟨xs, os⟩, d₁, hrun, rfl, rfl⟩, rfl⟩
    obtain ⟨hthrows, hxs⟩ := decimalsOf_ok_iff.mp ⟨os, hrun, rfl⟩
    exact ⟨_, xs, hthrows, hxs, rfl⟩
  · rintro ⟨thrown, xs, hthrows, hxs, rfl⟩
    obtain ⟨os, hrun, rfl⟩ := decimalsOf_ok_iff.mpr ⟨hthrows, hxs⟩
    exact ⟨_, ⟨(xs, os), _, hrun, rfl, rfl⟩, rfl⟩

/-- A lone list as an argument, once its dice are thrown. -/
def thrownList (items : List Value) (thrown : List Rolled) : Outcome :=
  ⟨.list (Value.fillAll items thrown), thrown⟩

theorem resolveLone_list_iff {items : List Value} {args : List Outcome} {d d' : σ} :
    resolveLone (fresh [.list items]) d = (.ok args, d') ↔
      ∃ thrown, Roll.Throws (Value.diceAll items) d thrown d' ∧
        args = [thrownList items thrown] := by
  simp only [fresh, List.map_cons, List.map_nil, resolveLone, bind_ok_iff, pure_ok_iff]
  constructor
  · rintro ⟨⟨v, o⟩, d₁, hthrow, rfl, rfl⟩
    obtain ⟨thrown, hthrows, rfl, rfl⟩ :=
      Outcome.resolve_ok_iff.mp (Outcome.through_ok_iff.mp hthrow)
    exact ⟨thrown, hthrows, rfl⟩
  · rintro ⟨thrown, hthrows, rfl⟩
    exact ⟨_, d', Outcome.through_ok_iff.mpr
      (Outcome.resolve_ok_iff.mpr ⟨thrown, hthrows, rfl, rfl⟩), rfl, rfl⟩

theorem spread?_thrownList {items : List Value} (hne : items ≠ []) (thrown : List Rolled) :
    spread? [thrownList items thrown] = .ok (some (fresh (Value.fillAll items thrown))) := by
  obtain ⟨v, items, rfl⟩ := List.exists_cons_of_ne_nil hne
  rfl

/-- A lone list is thrown as a whole, so that looking at its items throws nothing any more. -/
theorem extreme_list_iff {better : Float → Float → Bool} {items : List Value} (hne : items ≠ [])
    {reply : Reply} {d d' : σ} :
    extreme better (fresh [.list items]) d = (.ok reply, d') ↔
      ∃ thrown xs, Roll.Throws (Value.diceAll items) d thrown d' ∧
        Numbers (Value.fillAll items thrown) xs ∧
        reply = { value := .decimal (winner better xs), args := [thrownList items thrown] } := by
  simp only [extreme, bind_ok_iff, resolveLone_list_iff, ofExcept_ok_iff]
  constructor
  · rintro ⟨args, d₁, ⟨thrown, hthrows, rfl⟩, spread, d₂, ⟨hspread, rfl⟩, hrest⟩
    rw [spread?_thrownList hne] at hspread
    cases hspread
    simp only [bind_ok_iff, pure_ok_iff] at hrest
    obtain ⟨⟨xs, os⟩, d₃, hrun, rfl, rfl⟩ := hrest
    obtain ⟨hxs, rfl⟩ :=
      (decimalsOf_ok_iff_of_thrown (Value.diceAll_fillAll hthrows)).mp ⟨os, hrun⟩
    exact ⟨thrown, xs, hthrows, hxs, rfl⟩
  · rintro ⟨thrown, xs, hthrows, hxs, rfl⟩
    obtain ⟨os, hrun⟩ : ∃ os, decimalsOf (fresh (Value.fillAll items thrown)) d' =
        (.ok (xs, os), d') :=
      (decimalsOf_ok_iff_of_thrown (Value.diceAll_fillAll hthrows)).mpr ⟨hxs, rfl⟩
    refine ⟨_, d', ⟨thrown, hthrows, rfl⟩, _, d', ⟨spread?_thrownList hne thrown, rfl⟩, ?_⟩
    simp only [bind_ok_iff, pure_ok_iff]
    exact ⟨(xs, os), d', hrun, rfl, rfl⟩

/-- A call for the items of a lone list. -/
theorem call_list_iff {f : Builtin} (hf : f = min ∨ f = max) {items : List Value}
    (hne : items ≠ []) {reply : Outcome × Option String} {d d' : σ} :
    call f.name [.list items] d = (.ok reply, d') ↔ IsExtreme f.isBetter items d reply d' := by
  have hgather : ∀ x thrown, Outcome.gather (.decimal x) [thrownList items thrown] =
      ⟨.decimal x, thrown⟩ := by
    intro x thrown
    simp [Outcome.gather, thrownList]
  rw [call_extreme_iff hf (List.cons_ne_nil _ _)]
  simp only [extreme_list_iff hne]
  constructor
  · rintro ⟨r, ⟨thrown, xs, hthrows, hxs, rfl⟩, rfl⟩
    exact ⟨thrown, xs, hthrows, hxs, by rw [hgather]⟩
  · rintro ⟨thrown, xs, hthrows, hxs, rfl⟩
    exact ⟨_, ⟨thrown, xs, hthrows, hxs, rfl⟩, by rw [hgather]⟩

/-- A call of the function for the smallest or the largest number with a list of at least two items
succeeds exactly if the call with the items does; it comes to the same number, and leaves the same
log and the same dice behind. -/
theorem call_list_iff_call_items {f : Builtin} (hf : f = min ∨ f = max) {items : List Value}
    (hmany : 2 ≤ items.length) (reply : Outcome × Option String) (d d' : σ) :
    ((call f.name [.list items]).run d = (.ok reply, d') ↔
      (call f.name items).run d = (.ok reply, d')) ∧
    ((call f.name items).run d = (.ok reply, d') → ∃ x, reply.1.value = .decimal x) := by
  have hne : items ≠ [] := by
    rintro rfl
    cases hmany
  refine ⟨(call_list_iff hf hne).trans (call_items_iff hf hmany).symm, fun h => ?_⟩
  obtain ⟨thrown, xs, -, -, rfl⟩ := (call_items_iff hf hmany).mp h
  exact ⟨_, rfl⟩

/-- Two dice, and a list of one die and a natural. -/
theorem call_list_iff_call_items_nested :
    (Builtin.min = .min ∨ Builtin.min = .max) ∧
    2 ≤ [Value.roll ⟨2, 6, false, false⟩, .list [.roll ⟨1, 4, false, false⟩, .natural 2]].length ∧
    (call "min" [.list [.roll ⟨2, 6, false, false⟩,
        .list [.roll ⟨1, 4, false, false⟩, .natural 2]]] : Step ScriptedDice _).run
          ⟨[4, 2, 3], 1, 0⟩ =
      (.ok (⟨.decimal 5.0, [⟨⟨2, 6, false, false⟩, [4, 2], 6⟩, ⟨⟨1, 4, false, false⟩, [3], 3⟩]⟩,
        none), ⟨[], 1, 3⟩) :=
  ⟨.inl rfl, by decide, (call_list_iff_call_items (.inl rfl) (by decide) _ _ _).1.mpr rfl⟩

end Builtin

end DiceTome
