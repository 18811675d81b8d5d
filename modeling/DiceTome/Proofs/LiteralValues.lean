import DiceTome.Proofs.ReadValues
import DiceTome.Proofs.RoundTrip

/-!
# Values built from literals

A value is saved as its text, so its text has to evaluate to it again. For values built from
literals it does so whatever the context, the scope and the dice are, and nothing but the value
comes of it: no roll is logged, no die is drawn and the world stays as it is.

* `Expr.Denotes.run_eval`: an expression that denotes a value evaluates to it.
* `Value.run_evalArena_render`: the text of any stable value evaluates to the value.
* `Value.OfLiterals.eval_render`: so does the text of a value built from literals, which are stable.
-/

namespace DiceTome

open Token Step

/-- An expression that denotes a value evaluates to it at every depth of calls. -/
theorem Expr.Denotes.run_eval {σ : Type} [DiceSource σ] {e : Expr} {v : Value} (h : e.Denotes v)
    (scope : Index) (w : World σ) : World.eval e scope w = (.ok ⟨v, []⟩, w) := by
  rw [World.eval, run_bind, run_get]
  show evalWithin (levelsLeft w) scope e w = _
  cases levelsLeft w with
  | zero => exact h _ scope w
  | succ level => exact h _ scope w

namespace Value

/-- The text of a stable value is parsed, and evaluates to the value in every scope of every
world. -/
theorem run_evalArena_render {v : Value} (hsound : v.Sound) (hstable : v.isStable = true) :
    ∃ a, parseSource v.render = .ok a ∧
      ∀ ⦃σ : Type⦄ [DiceSource σ] (scope : Index) (w : World σ),
        World.evalArena a scope w = (.ok ⟨v, []⟩, w) := by
  obtain ⟨e, hspelling⟩ := exists_spelling hstable
  have hspells := spells_spelling hsound hspelling
  obtain ⟨v', hback⟩ := exists_comesBack hsound hspelling
  obtain rfl : v' = v := hback.eq_of_isStable hstable
  refine ⟨e.plant {}, ?_, fun σ _ scope w => ?_⟩
  · rw [← hspells.render_eq]
    exact Expr.parseSource_render hspells.spelled hspells.readable
  · rw [World.evalArena, Arena.expr?_plant]
    exact hback.denotes.run_eval scope w

/-- A value built from literals: a truth value, a text, a number or dice in the range of literals,
or a list of such values at any depth. Dice may have a flag, but not both. -/
inductive OfLiterals : Value → Prop
  | bool (b : Bool) : OfLiterals (.bool b)
  | string (s : String) : OfLiterals (.string s)
  | natural (n : Nat) (h : n ≤ maxNatural) : OfLiterals (.natural n)
  | roll (quantity die : Nat) {advantage disadvantage : Bool} (hquantity : quantity ≤ maxNatural)
      (hdie : die ≤ maxNatural) (hflags : ¬ (advantage = true ∧ disadvantage = true)) :
      OfLiterals (.roll ⟨quantity, die, advantage, disadvantage⟩)
  | list {items : List Value} (h : ∀ v ∈ items, OfLiterals v) : OfLiterals (.list items)

theorem OfLiterals.sound {v : Value} (h : v.OfLiterals) : v.Sound := by
  induction h with
  | bool | string | natural => trivial
  | roll _ _ hquantity hdie => exact ⟨_, _, hquantity, hdie, rfl, rfl⟩
  | list _ ih => exact soundItems_iff.mpr ih

theorem OfLiterals.isStable {v : Value} (h : v.OfLiterals) : v.isStable = true := by
  induction h with
  | bool | string => rfl
  | natural n hn =>
    simp only [Value.isStable, decide_eq_true_eq]
    omega
  | roll _ _ _ _ hflags =>
    rw [← Bool.and_eq_true, Bool.not_eq_true] at hflags
    simp only [Value.isStable, hflags, Bool.not_false]
  | list _ ih => exact allStable_iff.mpr ih

/-- A value built from literals is parsed and evaluated back from its text, in every scope of every
world and with any source of dice, and leaves no trace there. -/
theorem OfLiterals.eval_render {v : Value} (h : v.OfLiterals) :
    ∃ a, parseSource v.render = .ok a ∧
      ∀ ⦃σ : Type⦄ [DiceSource σ] (scope : Index) (w : World σ),
        World.evalArena a scope w = (.ok ⟨v, []⟩, w) :=
  run_evalArena_render h.sound h.isStable

/-- A list with an escaped text, the largest number, dice with either flag and a list in it. -/
theorem eval_render_list :
    let v : Value := .list [.string "\"\\\n\t%", .natural 18446744073709551615,
      .list [.roll ⟨4, 6, true, false⟩, .roll ⟨1, 20, false, true⟩, .bool false], .list []]
    v.render = "[\"\\\"\\\\\\n\\t%\", 18446744073709551615, [4d6a, d20d, false], []]" ∧
      ∃ a, parseSource v.render = .ok a ∧
        ∀ ⦃σ : Type⦄ [DiceSource σ] (scope : Index) (w : World σ),
          World.evalArena a scope w = (.ok ⟨v, []⟩, w) := by
  refine ⟨by decide +kernel, OfLiterals.eval_render ?_⟩
  have hdice : ∀ v ∈ [Value.roll ⟨4, 6, true, false⟩, .roll ⟨1, 20, false, true⟩, .bool false],
      v.OfLiterals := by
    simp only [List.forall_mem_cons, List.not_mem_nil, false_imp_iff, implies_true, and_true]
    exact ⟨.roll 4 6 (by decide) (by decide) (by decide),
      .roll 1 20 (by decide) (by decide) (by decide), .bool false⟩
  refine .list ?_
  simp only [List.forall_mem_cons, List.not_mem_nil, false_imp_iff, implies_true, and_true]
  exact ⟨.string _, .natural 18446744073709551615 (by decide), .list hdice, .list nofun⟩

end Value

end DiceTome
