import DiceTome.Proofs.DeepThrows
import Mathlib.Algebra.Order.BigOperators.Group.List
import Mathlib.Order.Bounds.Basic

/-!
# Thrown rolls

A roll is refused before any draw, or its dice are drawn one by one. The number of dice and what
their faces make depend on the two flags, which cancel each other: with one of them at least two
dice are drawn and the highest or the lowest face counts, else all faces count together.

* `DiceSource.InRange`: a source of dice shows only faces that a die has.
* `Roll.Drawn`: some faces are drawn one after another.
* `Roll.IsThrow`: what a roll that is thrown comes to.
* `Roll.throw_refused_or_thrown`: when a roll is refused, and what it comes to otherwise.
-/

namespace DiceTome

variable {σ : Type} [DiceSource σ]

/-- Every draw of a die with faces shows one of them. -/
def DiceSource.InRange (σ : Type) [DiceSource σ] : Prop :=
  ∀ (die : Int) (d : σ), 1 ≤ die → 1 ≤ (draw die d).1 ∧ (draw die d).1 ≤ die

theorem ScriptedDice.inRange : DiceSource.InRange ScriptedDice := by
  have hface : ∀ {face die : Int}, 1 ≤ die → 1 ≤ face % die + 1 ∧ face % die + 1 ≤ die := by
    intro face die hdie
    have hnonneg := Int.emod_nonneg face (show die ≠ 0 by omega)
    have hlt := Int.emod_lt_of_pos face (show 0 < die by omega)
    omega
  rintro die ⟨_ | ⟨face, faces⟩, state, draws⟩ hdie
  · exact hface hdie
  · exact hface hdie

namespace Roll

/-! ## Faces drawn one after another -/

/-- The faces are drawn one after another, each from the dice that the draw before has left. -/
inductive Drawn (die : Int) : σ → List Int → σ → Prop
  | nil (d : σ) : Drawn die d [] d
  | cons {d d' : σ} {faces : List Int} (h : Drawn die (DiceSource.draw die d).2 faces d') :
    Drawn die d ((DiceSource.draw die d).1 :: faces) d'

theorem Drawn.inRange (hdice : DiceSource.InRange σ) {die : Int} (hdie : 1 ≤ die) {d d' : σ}
    {faces : List Int} (h : Drawn die d faces d') : ∀ face ∈ faces, 1 ≤ face ∧ face ≤ die := by
  induction h with
  | nil d => exact List.forall_mem_nil _
  | cons _ ih => exact List.forall_mem_cons.mpr ⟨hdice die _ hdie, ih⟩

theorem drawn_onto (die : Int) (n : Nat) (before : List Int) (d : σ) :
    ∃ faces, Drawn die d faces (drawOnto die n before d).2 ∧ faces.length = n ∧
      (drawOnto die n before d).1 = faces.reverse ++ before := by
  induction n generalizing before d with
  | zero => exact ⟨[], .nil d, rfl, rfl⟩
  | succ n ih =>
    obtain ⟨faces, hdrawn, hlength, hfaces⟩ :=
      ih ((DiceSource.draw die d).1 :: before) (DiceSource.draw die d).2
    refine ⟨(DiceSource.draw die d).1 :: faces, .cons hdrawn, by rw [List.length_cons, hlength], ?_⟩
    rw [drawOnto, hfaces, List.reverse_cons, List.append_assoc, List.singleton_append]

/-- So many faces are drawn, and they stand in the order of the draws. -/
theorem drawn_drawFaces (die : Int) (n : Nat) (d : σ) :
    Drawn die d (drawFaces die n d).1 (drawFaces die n d).2 ∧
      (drawFaces die n d).1.length = n := by
  obtain ⟨faces, hdrawn, hlength, hfaces⟩ := drawn_onto die n [] d
  have heq : (drawFaces die n d).1 = faces := by
    show (drawOnto die n [] d).1.reverse = faces
    rw [hfaces, List.append_nil, List.reverse_reverse]
  rw [heq]
  exact ⟨hdrawn, hlength⟩

/-! ## What faces make -/

omit [DiceSource σ]

theorem sum_eq (faces : List Int) : sum faces = faces.sum :=
  List.sum_eq_foldl.symm

theorem isGreatest_highest {faces : List Int} (h : faces ≠ []) :
    IsGreatest {face | face ∈ faces} (highest faces) := by
  obtain ⟨face, faces, rfl⟩ := List.exists_cons_of_ne_nil h
  have hmax : (face :: faces).max? = some (highest (face :: faces)) := by
    rw [List.max?_cons', highest]
    congr 2
    funext a b
    exact max_def_lt a b
  exact List.max?_eq_some_iff.mp hmax

theorem isLeast_lowest {faces : List Int} (h : faces ≠ []) :
    IsLeast {face | face ∈ faces} (lowest faces) := by
  obtain ⟨face, faces, rfl⟩ := List.exists_cons_of_ne_nil h
  have hmin : (face :: faces).min? = some (lowest (face :: faces)) := by
    rw [List.min?_cons', lowest]
    congr 2
    funext a b
    rw [min_comm]
    exact min_def_lt b a
  exact List.min?_eq_some_iff.mp hmin

theorem lowest_le_highest {faces : List Int} (h : faces ≠ []) : lowest faces ≤ highest faces :=
  (isLeast_lowest h).2 (isGreatest_highest h).1

/-- Flags that are both set or both missing ask for no further dice. -/
theorem count_eq (r : Roll) :
    r.count = if r.advantage = r.disadvantage then r.quantity else max r.quantity 2 := by
  obtain ⟨quantity, die, _ | _, _ | _⟩ := r <;> rfl

theorem le_count {r : Roll} (h : 0 ≤ r.quantity) : 0 ≤ r.count := by
  rw [count_eq]
  split <;> omega

/-- One flag asks for a die at least, so that there is a highest and a lowest face. -/
theorem one_le_count {r : Roll} (h : r.advantage ≠ r.disadvantage) : 1 ≤ r.count := by
  rw [count_eq, if_neg h]
  omega

/-! ## What a roll comes to -/

variable [DiceSource σ]

/-- What a roll that is thrown comes to: so many faces as it has dice are drawn and recorded, all of
them faces of its die, and the result is the highest with advantage only, the lowest with
disadvantage only, and else the sum. -/
structure IsThrow (r : Roll) (d : σ) (rolled : Rolled) (d' : σ) : Prop where
  roll : rolled.roll = r
  drawn : Drawn r.die d rolled.faces d'
  number : (rolled.faces.length : Int) = r.count
  inRange : ∀ face ∈ rolled.faces, 1 ≤ face ∧ face ≤ r.die
  highest : r.advantage = true → r.disadvantage = false →
    IsGreatest {face | face ∈ rolled.faces} rolled.result
  lowest : r.advantage = false → r.disadvantage = true →
    IsLeast {face | face ∈ rolled.faces} rolled.result
  sum : r.advantage = r.disadvantage → rolled.result = rolled.faces.sum ∧
    r.count ≤ rolled.result ∧ rolled.result ≤ r.count * r.die

/-- A roll is refused only before any draw, because its die has no faces or it has too many dice. -/
theorem throw_error_iff (r : Roll) (d d' : σ) (err : EvalError) :
    r.throw d = (.error err, d') ↔
      d' = d ∧ (r.die < 1 ∧ err = .invalidDie r.die ∨
        1 ≤ r.die ∧ maxDice < r.count ∧ err = .tooManyDice r.count maxDice) := by
  rw [throw_eq, refusal?]
  by_cases hdie : r.die < 1
  · rw [if_pos hdie]
    grind
  by_cases hmany : maxDice < r.count
  · rw [if_neg hdie, if_pos hmany]
    grind
  · rw [if_neg hdie, if_neg hmany]
    grind

theorem throw_of_accepted {r : Roll} (hdie : 1 ≤ r.die) (hfew : r.count ≤ maxDice) (d : σ) :
    r.throw d =
      (.ok ⟨r, (drawFaces r.die r.count.toNat d).1, r.resultOf (drawFaces r.die r.count.toNat d).1⟩,
        (drawFaces r.die r.count.toNat d).2) := by
  have hnone : r.refusal? = none := by
    rw [refusal?, if_neg (not_lt.mpr hdie), if_neg (not_lt.mpr hfew)]
  rw [throw_eq, hnone]

theorem drawFaces_of_throw {r : Roll} {d d' : σ} {rolled : Rolled}
    (h : r.throw d = (.ok rolled, d')) :
    rolled.faces = (drawFaces r.die r.count.toNat d).1 ∧
      rolled.result = r.resultOf rolled.faces ∧ d' = (drawFaces r.die r.count.toNat d).2 := by
  have hnone := (of_throw h).1
  rw [throw_eq, hnone] at h
  cases h
  exact ⟨rfl, rfl, rfl⟩

/-- What the faces make is bounded by their number and the faces of the die. -/
theorem sum_bounds {faces : List Int} {die : Int} (h : ∀ face ∈ faces, 1 ≤ face ∧ face ≤ die) :
    faces.length ≤ faces.sum ∧ faces.sum ≤ faces.length * die := by
  have hlow := List.card_nsmul_le_sum faces 1 fun face hface => (h face hface).1
  have hhigh := List.sum_le_card_nsmul faces die fun face hface => (h face hface).2
  rw [nsmul_eq_mul] at hlow hhigh
  rw [mul_one] at hlow
  exact ⟨hlow, hhigh⟩

/-- A roll that is not refused is thrown. -/
theorem exists_isThrow (hdice : DiceSource.InRange σ) {r : Roll} (hquantity : 0 ≤ r.quantity)
    (hdie : 1 ≤ r.die) (hfew : r.count ≤ maxDice) (d : σ) :
    ∃ rolled d', r.throw d = (.ok rolled, d') ∧ r.IsThrow d rolled d' := by
  obtain ⟨hdrawn, hlength⟩ := drawn_drawFaces r.die r.count.toNat d
  refine ⟨_, _, throw_of_accepted hdie hfew d, ?_⟩
  generalize drawFaces r.die r.count.toNat d = faces at hdrawn hlength
  have hnumber : (faces.1.length : Int) = r.count := by
    have hcount := le_count hquantity
    omega
  have hrange := hdrawn.inRange hdice hdie
  have hsome : r.advantage ≠ r.disadvantage → faces.1 ≠ [] := by
    intro hflags hnil
    have hcount := one_le_count hflags
    rw [hnil, List.length_nil] at hnumber
    omega
  refine ⟨rfl, hdrawn, hnumber, hrange, fun hadv hdis => ?_, fun hadv hdis => ?_, fun hflags => ?_⟩
  · have hresult : r.resultOf faces.1 = Roll.highest faces.1 := by
      simp [resultOf, hasAdvantage, hadv, hdis]
    rw [hresult]
    exact isGreatest_highest (hsome (by simp [hadv, hdis]))
  · have hresult : r.resultOf faces.1 = Roll.lowest faces.1 := by
      simp [resultOf, hasAdvantage, hasDisadvantage, hadv, hdis]
    rw [hresult]
    exact isLeast_lowest (hsome (by simp [hadv, hdis]))
  · have hresult : r.resultOf faces.1 = faces.1.sum := by
      simp [resultOf, hasAdvantage, hasDisadvantage, hflags, sum_eq]
    rw [hresult, ← hnumber]
    exact ⟨rfl, sum_bounds hrange⟩

/-- The same draws make at most as much with disadvantage as with advantage. -/
theorem low_le_high {quantity die : Int} {d d₁ d₂ : σ} {low high : Rolled}
    (hlow : throw ⟨quantity, die, false, true⟩ d = (.ok low, d₁))
    (hhigh : throw ⟨quantity, die, true, false⟩ d = (.ok high, d₂)) :
    low.faces = high.faces ∧ d₁ = d₂ ∧ low.result ≤ high.result := by
  obtain ⟨hlowFaces, hlowResult, hlowDice⟩ := drawFaces_of_throw hlow
  obtain ⟨hhighFaces, hhighResult, hhighDice⟩ := drawFaces_of_throw hhigh
  have hfaces : low.faces = high.faces := hlowFaces.trans hhighFaces.symm
  have hsome : high.faces ≠ [] := by
    intro hnil
    have hlength := (drawn_drawFaces die (max quantity 2).toNat d).2
    have hnone : (drawFaces die (max quantity 2).toNat d).1 = [] := hhighFaces.symm.trans hnil
    rw [hnone, List.length_nil] at hlength
    omega
  refine ⟨hfaces, hlowDice.trans hhighDice.symm, ?_⟩
  rw [hlowResult, hhighResult, hfaces]
  exact lowest_le_highest hsome

/-- A roll is refused, before any draw, exactly if its die has no faces or it has too many dice;
otherwise all of its dice are drawn. With exactly one flag it has at least two dice. -/
theorem throw_refused_or_thrown (hdice : DiceSource.InRange σ) (r : Roll)
    (hquantity : 0 ≤ r.quantity) (d : σ) :
    r.count = (if r.advantage = r.disadvantage then r.quantity else max r.quantity 2) ∧
    (∀ err d', r.throw d = (.error err, d') ↔ d' = d ∧
      (r.die < 1 ∧ err = .invalidDie r.die ∨
        1 ≤ r.die ∧ 100000 < r.count ∧ err = .tooManyDice r.count 100000)) ∧
    (EvalError.invalidDie r.die).code? = some "E402" ∧
    (EvalError.tooManyDice r.count 100000).code? = some "E401" ∧
    (1 ≤ r.die → r.count ≤ 100000 →
      ∃ rolled d', r.throw d = (.ok rolled, d') ∧ r.IsThrow d rolled d') ∧
    ∀ low high d₁ d₂,
      ({ r with advantage := false, disadvantage := true }).throw d = (.ok low, d₁) →
      ({ r with advantage := true, disadvantage := false }).throw d = (.ok high, d₂) →
        low.faces = high.faces ∧ d₁ = d₂ ∧ low.result ≤ high.result :=
  ⟨count_eq r, fun err d' => throw_error_iff r d d' err, rfl, rfl,
    fun hdie hfew => exists_isThrow hdice hquantity hdie hfew d,
    fun _ _ _ _ hlow hhigh => low_le_high hlow hhigh⟩

/-- One die with advantage is thrown as two. -/
theorem throw_refused_or_thrown_advantage :
    DiceSource.InRange ScriptedDice ∧
    ∃ rolled d', throw ⟨1, 6, true, false⟩ (⟨[4, 2, 5], 1, 0⟩ : ScriptedDice) =
      (.ok rolled, d') ∧ IsThrow ⟨1, 6, true, false⟩ ⟨[4, 2, 5], 1, 0⟩ rolled d' ∧
        rolled.faces = [4, 2] ∧ rolled.result = 4 ∧ d' = ⟨[5], 1, 2⟩ := by
  obtain ⟨-, -, -, -, hthrown, -⟩ := throw_refused_or_thrown ScriptedDice.inRange
    ⟨1, 6, true, false⟩ (by decide) ⟨[4, 2, 5], 1, 0⟩
  obtain ⟨rolled, d', hthrow, hrolled⟩ := hthrown (by decide) (by decide)
  refine ⟨ScriptedDice.inRange, rolled, d', hthrow, hrolled, ?_⟩
  cases hthrow
  exact ⟨rfl, rfl, rfl⟩

end Roll

end DiceTome
