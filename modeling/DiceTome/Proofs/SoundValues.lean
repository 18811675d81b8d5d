import DiceTome.Builtin
import DiceTome.Proofs.Steps
import DiceTome.Token.Scan

/-!
# Sound values

The operators and the builtin functions throw dice to calculate with them, but no thrown roll ever
becomes part of a value: what they give is made of numbers, texts, picked faces and the dice that
they were given.

* `Value.Sound` says so of a value.
* `Outcome.gives_unary`, `Outcome.gives_binary` and `Builtin.gives_call`: sound operands give sound
  values.
-/

namespace DiceTome

open Step

namespace Value

mutual

/-- A value that no roll has been thrown for, and whose dice literals can spell. -/
def Sound : Value → Prop
  | roll r => ∃ quantity die : Nat, quantity ≤ Token.maxNatural ∧ die ≤ Token.maxNatural ∧
      r.quantity = quantity ∧ r.die = die
  | outcome _ => False
  | list items => SoundItems items
  | _ => True

def SoundItems : List Value → Prop
  | [] => True
  | v :: vs => v.Sound ∧ SoundItems vs

end

theorem soundItems_iff {items : List Value} : SoundItems items ↔ ∀ v ∈ items, v.Sound := by
  induction items with
  | nil => simp [SoundItems]
  | cons v vs ih => simp [SoundItems, ih]

end Value

/-- A step that succeeds gives a result with the property `q`. -/
abbrev Step.Gives (step : Step s α) (q : α → Prop) : Prop :=
  Keeps (fun _ => True) step q

theorem Step.gives_any {step : Step s α} : Gives step fun _ => True :=
  fun _ _ => ⟨trivial, fun _ _ => trivial⟩

/-- A step over a part of the state that is given. -/
theorem Step.gives_alone {inv : t × s → Prop} {step : Step (t × s) α} {q : α → Prop} {part : t}
    (h : Keeps inv step q) (hpart : ∀ st, inv (part, st)) : Gives (alone part step) q :=
  fun st _ => ⟨trivial, fun a ha => (h (part, st) (hpart st)).2 a ha⟩

theorem Step.Gives.alone {step : Step (t × s) α} {q : α → Prop} (h : Gives step q) (part : t) :
    Gives (Step.alone part step) q :=
  gives_alone h fun _ => trivial

namespace Outcome

variable {σ : Type}

theorem keeps_carry {inv : Outcome × σ → Prop} {v : Value} (h : v.Sound) :
    Keeps inv (carry v) fun o => o.value.Sound :=
  Keeps.bind keeps_get fun _ _ => keeps_pure h

theorem keeps_merge {inv : Operands × σ → Prop} {v : Value} (h : v.Sound) :
    Keeps inv (Operands.merge v) fun o => o.value.Sound :=
  Keeps.bind keeps_get fun _ _ => keeps_pure h

theorem keeps_flagged {set : Roll → Roll}
    (h : ∀ r, (set r).quantity = r.quantity ∧ (set r).die = r.die) :
    Keeps (fun st : Outcome × σ => st.1.value.Sound) (flagged set) fun o => o.value.Sound := by
  refine Keeps.bind keeps_get fun st hst => ?_
  split
  · rename_i r hr
    rw [hr] at hst
    have hset : (Value.roll (set r)).Sound := by
      simp only [Value.Sound, h r]
      exact hst
    exact keeps_carry hset
  · exact keeps_throw _

variable [DiceSource σ]

/-- The operators of one operand. -/
theorem gives_unary (op : UnaryOp) {o : Outcome} (ho : o.value.Sound) :
    Gives (alone o (unary op) : Step σ Outcome) fun o => o.value.Sound := by
  cases op with
  | neg | not | sort => exact Gives.alone (gives_any.bind fun _ _ => keeps_carry (by trivial)) o
  | advantage => exact gives_alone (keeps_flagged fun _ => ⟨rfl, rfl⟩) fun _ => ho
  | disadvantage => exact gives_alone (keeps_flagged fun _ => ⟨rfl, rfl⟩) fun _ => ho

theorem gives_arithmetic (op : BinaryOp) (f : Float → Float → Float) :
    Gives (arithmetic op f : Step (Operands × σ) Outcome) fun o => o.value.Sound :=
  gives_any.bind fun _ _ => gives_any.bind fun _ _ => gives_any.bind fun _ _ => keeps_merge (by trivial)

/-- The operators of two operands. -/
theorem gives_binary (op : BinaryOp) (l : Outcome) {r : Outcome} (hr : r.value.Sound) :
    Gives (alone (.pair l r) (binary op) : Step σ Outcome) fun o => o.value.Sound := by
  have hright : Keeps (fun st : Operands × σ => st.1.right.value.Sound)
      (do Operands.merge (← get).1.right.value) fun o => o.value.Sound :=
    Keeps.bind keeps_get fun _ hst => keeps_merge hst
  have hconcat : Gives (concat : Step (Operands × σ) Outcome) fun o => o.value.Sound :=
    gives_any.bind fun _ _ => gives_any.bind fun _ _ => keeps_merge (by trivial)
  cases op with
  | add =>
    have hadd : Gives (binary .add : Step (Operands × σ) Outcome) fun o => o.value.Sound := by
      refine Keeps.bind gives_any fun st _ => ?_
      split
      · exact hconcat
      · exact gives_arithmetic _ _
    exact hadd.alone _
  | sub | mul | div | pow => exact (gives_arithmetic _ _).alone _
  | discard | assign => exact gives_alone hright fun _ => hr
  | _ =>
    exact Gives.alone
      (gives_any.bind fun _ _ => gives_any.bind fun _ _ => keeps_merge (by trivial)) _

end Outcome

/-! ## Builtin functions -/

namespace Builtin

variable {σ : Type} [DiceSource σ]

/-- Throwing a roll at the top leaves every other value as it is. -/
theorem gives_resolve (v : Value) :
    Gives (v.resolve false : Step (List Rolled × σ) Value) fun x => x = v ∨ ∃ r, x = .outcome r := by
  cases v with
  | roll r => exact gives_any.bind fun _ _ => gives_any.bind fun _ _ => keeps_pure (.inr ⟨_, rfl⟩)
  | _ => exact keeps_pure (.inl rfl)

theorem gives_through (o : Outcome) : Gives (o.through Outcome.resolve : Step σ (Value × Outcome))
    fun r => r.1 = o.value ∨ ∃ t, r.1 = .outcome t := by
  intro dice _
  refine ⟨trivial, fun r hr => ?_⟩
  have hvalue := (gives_resolve o.value (o.rolls, dice) trivial).2
  simp only [Outcome.through, Outcome.resolve, ExceptT.run, run_bind, run_get, within] at hr
  cases hrun : (o.value.resolve false : Step (List Rolled × σ) Value) (o.rolls, dice) with
  | mk result st =>
    rw [hrun] at hr hvalue
    cases result with
    | error err => cases hr
    | ok x =>
      simp only [run_modify, run_pure] at hr
      cases hr
      exact hvalue x rfl

/-- The items of a value, also if it was a roll and has been thrown. -/
theorem sound_asList {v x : Value} (h : v.Sound) (hx : x = v ∨ ∃ r, x = .outcome r)
    {items : List Value} (hitems : x.asList = .ok items) : ∀ i ∈ items, i.Sound := by
  have hnaturals : ∀ faces : List Int, ∀ i ∈ faces.map Value.natural, i.Sound := by
    intro faces i hi
    obtain ⟨n, -, rfl⟩ := List.mem_map.mp hi
    trivial
  rcases hx with rfl | ⟨r, rfl⟩
  · cases x with
    | list xs =>
      cases hitems
      exact Value.soundItems_iff.mp h
    | rolls faces =>
      cases hitems
      exact hnaturals faces
    | outcome _ => cases h
    | _ => cases hitems
  · cases hitems
    exact hnaturals r.faces

theorem gives_extreme (better : Float → Float → Bool) (args : List Outcome) :
    Gives (extreme better args : Step σ Reply) fun r => r.value.Sound := by
  refine gives_any.bind fun args _ => gives_any.bind fun items _ => ?_
  split
  · exact gives_any.bind fun _ _ => keeps_pure (by trivial)
  · exact gives_any.bind fun _ _ => keeps_pure (by trivial)

theorem sound_getD {items : List Value} (h : ∀ v ∈ items, v.Sound) (i : Nat) :
    (items[i]?.getD .empty).Sound := by
  cases hget : items[i]? with
  | none => trivial
  | some v => exact h v (List.mem_of_getElem? hget)

theorem sound_set {items : List Value} (h : ∀ v ∈ items, v.Sound) (i : Nat) {v : Value}
    (hv : v.Sound) : (Value.list (items.set i v)).Sound := by
  refine Value.soundItems_iff.mpr fun x hx => ?_
  rcases List.mem_or_eq_of_mem_set hx with hx | rfl
  · exact h x hx
  · exact hv

theorem gives_run (f : Builtin) {args : List Outcome} (hargs : ∀ o ∈ args, o.value.Sound) :
    Gives (f.run args : Step σ Reply) fun r => r.value.Sound := by
  have hrounding : ∀ round x, Gives (rounding round x : Step σ Reply) fun r => r.value.Sound :=
    fun _ _ => gives_any.bind fun _ _ => gives_any.bind fun _ _ => keeps_pure (by trivial)
  unfold run
  split
  · exact hrounding _ _
  · exact hrounding _ _
  · exact hrounding _ _
  · split
    · exact keeps_pure (by trivial)
    · exact gives_any.bind fun _ _ => keeps_pure (by trivial)
  · exact gives_extreme _ _
  · exact gives_extreme _ _
  · exact gives_any.bind fun _ _ => keeps_pure (by trivial)
  · exact gives_any.bind fun _ _ => keeps_pure (by trivial)
  · refine gives_any.bind fun r _ => ?_
    obtain ⟨v, x⟩ := r
    cases v with
    | string s =>
      have hlength : (Value.natural s.length).Sound := trivial
      exact keeps_pure hlength
    | _ => exact gives_any.bind fun _ _ => keeps_pure (by trivial)
  · rename_i items index
    refine (gives_through items).bind fun r hr => ?_
    refine Keeps.bind (keeps_ofExcept fun values hvalues =>
      sound_asList (hargs items (by simp)) hr hvalues) fun values hvalues => ?_
    exact gives_any.bind fun _ _ => gives_any.bind fun i _ => keeps_pure (sound_getD hvalues i)
  · rename_i items index item
    refine (gives_through items).bind fun r hr => ?_
    refine Keeps.bind (keeps_ofExcept fun values hvalues =>
      sound_asList (hargs items (by simp)) hr hvalues) fun values hvalues => ?_
    exact gives_any.bind fun _ _ => gives_any.bind fun i _ =>
      keeps_pure (sound_set hvalues i (hargs item (by simp)))
  · exact gives_any.bind fun _ _ => keeps_pure (by trivial)
  · exact keeps_throw _

/-- Every builtin function gives a sound value. -/
theorem gives_call (name : String) {args : List Value} (hargs : ∀ v ∈ args, v.Sound) :
    Gives (call name args : Step σ (Outcome × Option String)) fun r => r.1.value.Sound := by
  unfold call
  split
  · exact keeps_throw _
  · split
    · refine (gives_run _ ?_).bind fun _ hr => keeps_pure hr
      intro o ho
      obtain ⟨v, hv, rfl⟩ := List.mem_map.mp ho
      exact hargs v hv
    · exact keeps_throw _

end Builtin

end DiceTome
