import DiceTome.Proofs.DecimalText

/-!
# Shortest digits read back

The digits that are printed for a finite number are read as that number. The reals that are read as
a number form its rounding interval (`nearestBits_of_holds`), the digits are picked from a decimal
grid inside that interval, and the grid of the seventeenth digit always meets it
(`pick?_seventeen`).

* `Decimal.holds_shortest`: the shortest digits lie in the rounding interval.
* `Decimal.written_of_positive`: source text spells a finite number without a sign by its text.
-/

namespace DiceTome.Decimal

/-! ## Rounding a quotient -/

/-- A real rounds to a natural number if it is at most a half away from it, and less for an odd one. -/
def RoundsTo (r : ℚ) (n : Nat) : Prop :=
  |r - n| ≤ 1 / 2 ∧ (n % 2 = 1 → |r - n| < 1 / 2)

/-- What rounds to a number lies at most half a divisor away from its multiple. -/
theorem RoundsTo.bounds {num den n : Nat} (hden : 0 < den) (h : RoundsTo ((num : ℚ) / den) n) :
    2 * n * den ≤ 2 * num + den ∧ 2 * num ≤ 2 * n * den + den := by
  have hd : (0 : ℚ) < den := by exact_mod_cast hden
  obtain ⟨hlow, hhigh⟩ := abs_le.mp h.1
  rw [le_sub_iff_add_le, le_div_iff₀ hd] at hlow
  rw [sub_le_iff_le_add, div_le_iff₀ hd] at hhigh
  have hlow' : (2 * n * den : ℚ) ≤ 2 * num + den := by linarith
  have hhigh' : (2 * num : ℚ) ≤ 2 * n * den + den := by linarith
  exact ⟨by exact_mod_cast hlow', by exact_mod_cast hhigh'⟩

theorem RoundsTo.strict {num den n : Nat} (hden : 0 < den) (h : RoundsTo ((num : ℚ) / den) n)
    (hn : n % 2 = 1) : 2 * n * den < 2 * num + den ∧ 2 * num < 2 * n * den + den := by
  have hd : (0 : ℚ) < den := by exact_mod_cast hden
  obtain ⟨hlow, hhigh⟩ := abs_lt.mp (h.2 hn)
  rw [lt_sub_iff_add_lt, lt_div_iff₀ hd] at hlow
  rw [sub_lt_iff_lt_add, div_lt_iff₀ hd] at hhigh
  have hlow' : (2 * n * den : ℚ) < 2 * num + den := by linarith
  have hhigh' : (2 * num : ℚ) < 2 * n * den + den := by linarith
  exact ⟨by exact_mod_cast hlow', by exact_mod_cast hhigh'⟩

theorem roundDiv_eq {num den n : Nat} (hden : 0 < den) (h : RoundsTo ((num : ℚ) / den) n) :
    roundDiv num den = n := by
  obtain ⟨hlow, hhigh⟩ := h.bounds hden
  have hstrict := h.strict hden
  have hsplit : num = den * (num / den) + num % den := (Nat.div_add_mod num den).symm
  have hrest : num % den < den := Nat.mod_lt num hden
  unfold roundDiv
  generalize num / den = quotient at *
  generalize num % den = rest at *
  subst hsplit
  have hup : n ≤ quotient + 1 := by
    by_contra hlt
    nlinarith
  have hdown : quotient ≤ n := by
    by_contra hlt
    nlinarith
  obtain rfl | rfl : n = quotient ∨ n = quotient + 1 := by omega
  · have hhalf : 2 * rest ≤ den := by linarith
    simp only
    split
    · rfl
    · rw [if_neg (by omega)]
      split
      · rfl
      · have hlt := (hstrict (by omega)).2
        have : 2 * rest < den := by linarith
        omega
  · have hhalf : den ≤ 2 * rest := by linarith
    simp only
    rw [if_neg (by omega)]
    split
    · rfl
    · split
      · have hlt := (hstrict (by omega)).1
        have : den < 2 * rest := by linarith
        omega
      · rfl

/-! ## The unit of the last bit -/

theorem log2_spec {n : Nat} (hn : n ≠ 0) : (2 : ℚ) ^ n.log2 ≤ n ∧ (n : ℚ) < 2 ^ (n.log2 + 1) :=
  ⟨by exact_mod_cast Nat.log2_self_le hn, by exact_mod_cast Nat.lt_log2_self⟩

theorem scaled_le_iff (k : Int) (num : Nat) {den b : Nat} (hden : den ≠ 0) (hb : b ≠ 0) :
    (if 0 ≤ k then den * Nat.pow b k.toNat ≤ num else den ≤ num * Nat.pow b (-k).toNat) ↔
      (b : ℚ) ^ k ≤ (num : ℚ) / den := by
  have hd : (0 : ℚ) < den := by exact_mod_cast Nat.pos_of_ne_zero hden
  have hpos : (0 : ℚ) < b := by exact_mod_cast Nat.pos_of_ne_zero hb
  rw [le_div_iff₀ hd]
  split
  · rename_i hk
    obtain ⟨n, rfl⟩ := Int.eq_ofNat_of_zero_le hk
    rw [zpow_natCast, Int.toNat_natCast, mul_comm]
    exact_mod_cast Iff.rfl
  · rename_i hk
    obtain ⟨n, rfl⟩ : ∃ n : Nat, k = -(n : Int) := ⟨(-k).toNat, by omega⟩
    rw [zpow_neg, zpow_natCast, neg_neg, Int.toNat_natCast, inv_mul_le_iff₀ (by positivity), mul_comm]
    exact_mod_cast Iff.rfl

/-- The quotient of two numbers lies around the quotient of the powers of two below them. -/
theorem log_quotient {num den : Nat} (hnum : num ≠ 0) (hden : den ≠ 0) :
    Int.log 2 ((num : ℚ) / den) = (num.log2 : Int) - den.log2 ∨
      Int.log 2 ((num : ℚ) / den) = (num.log2 : Int) - den.log2 - 1 := by
  have hn : (0 : ℚ) < num := by exact_mod_cast Nat.pos_of_ne_zero hnum
  have hd : (0 : ℚ) < den := by exact_mod_cast Nat.pos_of_ne_zero hden
  obtain ⟨hnlow, hnhigh⟩ := log2_spec hnum
  obtain ⟨hdlow, hdhigh⟩ := log2_spec hden
  have hlow : (num.log2 : Int) - den.log2 - 1 ≤ Int.log 2 ((num : ℚ) / den) := by
    rw [← Int.zpow_le_iff_le_log (by decide) (by positivity), le_div_iff₀ hd]
    calc ((2 : Nat) : ℚ) ^ ((num.log2 : Int) - den.log2 - 1) * den
        ≤ (2 : ℚ) ^ ((num.log2 : Int) - den.log2 - 1) * 2 ^ (den.log2 + 1) := by
          push_cast
          gcongr
      _ = 2 ^ num.log2 := by
          rw [← zpow_natCast, ← zpow_natCast, ← zpow_add₀ (by norm_num)]
          congr 1
          push_cast
          ring
      _ ≤ num := hnlow
  have hhigh : Int.log 2 ((num : ℚ) / den) < (num.log2 : Int) - den.log2 + 1 := by
    rw [← Int.lt_zpow_iff_log_lt (by decide) (by positivity), div_lt_iff₀ hd]
    calc (num : ℚ) < 2 ^ (num.log2 + 1) := hnhigh
      _ = 2 ^ ((num.log2 : Int) - den.log2 + 1) * 2 ^ den.log2 := by
          rw [← zpow_natCast, ← zpow_natCast, ← zpow_add₀ (by norm_num)]
          congr 1
          push_cast
          ring
      _ ≤ ((2 : Nat) : ℚ) ^ ((num.log2 : Int) - den.log2 + 1) * den := by
          push_cast
          gcongr
  omega

/-- The powers of two around a quotient. -/
theorem unitExponent_eq {num den : Nat} (hnum : num ≠ 0) (hden : den ≠ 0) :
    unitExponent num den = max (Int.log 2 ((num : ℚ) / den) - 52) (-1074) := by
  have hn : (0 : ℚ) < num := by exact_mod_cast Nat.pos_of_ne_zero hnum
  have hd : (0 : ℚ) < den := by exact_mod_cast Nat.pos_of_ne_zero hden
  have hreaches := scaled_le_iff (num.log2 - den.log2 : Int) num hden (b := 2) (by decide)
  rw [Int.zpow_le_iff_le_log (by decide) (by positivity)] at hreaches
  have hcases := log_quotient hnum hden
  unfold unitExponent
  simp only
  congr 1
  by_cases hle : (num.log2 - den.log2 : Int) ≤ Int.log 2 ((num : ℚ) / den)
  · rw [if_pos (hreaches.mpr hle)]
    omega
  · rw [if_neg (mt hreaches.mp hle)]
    omega

theorem nearestBits_of_roundsTo (negative : Bool) {num den M : Nat} (hnum : num ≠ 0)
    (hden : den ≠ 0) (h : RoundsTo ((num : ℚ) / den / 2 ^ unitExponent num den) M) :
    nearestBits negative num den = (if negative then 2 ^ 63 else 0) +
      min ((unitExponent num den + 1074).toNat * 2 ^ 52 + M) (2047 * 2 ^ 52) := by
  have hd : den > 0 := Nat.pos_of_ne_zero hden
  have hround : (if 0 ≤ unitExponent num den then
      roundDiv num (den * Nat.pow 2 (unitExponent num den).toNat)
      else roundDiv (num * Nat.pow 2 (-unitExponent num den).toNat) den) = M := by
    generalize unitExponent num den = e at *
    split
    · rename_i he
      obtain ⟨n, rfl⟩ := Int.eq_ofNat_of_zero_le he
      have hpow : 0 < Nat.pow 2 n := Nat.pow_pos (by decide)
      refine roundDiv_eq (Nat.mul_pos hd hpow) ?_
      convert h using 1
      rw [Int.toNat_natCast, zpow_natCast, div_div, Nat.pow_eq]
      push_cast
      rfl
    · rename_i he
      obtain ⟨n, rfl⟩ : ∃ n : Nat, e = -(n : Int) := ⟨(-e).toNat, by omega⟩
      refine roundDiv_eq hd ?_
      convert h using 1
      rw [neg_neg, Int.toNat_natCast, zpow_neg, zpow_natCast, div_inv_eq_mul, div_mul_eq_mul_div,
        Nat.pow_eq]
      push_cast
      rfl
  unfold nearestBits
  simp only [hnum, if_false]
  rw [hround]
  rfl

/-! ## The interval of what reads back -/

/-- A rational lies in a rounding interval, given in units of `2 ^ e`. -/
def Rounding.Holds (r : Rounding) (e : Int) (x : ℚ) : Prop :=
  r.low * 2 ^ e ≤ x ∧ x ≤ r.high * 2 ^ e ∧ (r.closed = false → r.low * 2 ^ e < x ∧ x < r.high * 2 ^ e)

/-- The significand and exponent of a floating-point number. -/
structure Canonical (m : Nat) (q : Int) : Prop where
  lt : m < 2 ^ 53
  le : -1074 ≤ q
  normal : -1074 < q → 2 ^ 52 ≤ m

theorem zpow_sub_two (q : Int) : (2 : ℚ) ^ (q - 2) = 2 ^ q / 4 := by
  rw [zpow_sub₀ (by norm_num)]
  norm_num

theorem le_low (m : Nat) (q : Int) : (4 * m - 2 : ℚ) ≤ (Rounding.of m q).low := by
  have hle : 4 * m ≤ (Rounding.of m q).low + 2 := by
    unfold Rounding.of
    simp only
    split <;> omega
  have : (4 * m : ℚ) ≤ (Rounding.of m q).low + 2 := by exact_mod_cast hle
  linarith

theorem high_of (m : Nat) (q : Int) : ((Rounding.of m q).high : ℚ) = 4 * m + 2 := by
  simp [Rounding.of]

/-- What lies in the interval of a number rounds to its significand. -/
theorem roundsTo_of_holds {m : Nat} {q : Int} {x : ℚ} (h : (Rounding.of m q).Holds (q - 2) x) :
    RoundsTo (x / 2 ^ q) m := by
  have hpow : (0 : ℚ) < 2 ^ q := by positivity
  obtain ⟨hlow, hhigh, hopen⟩ := h
  have hleast := le_low m q
  rw [zpow_sub_two] at hlow hhigh hopen
  rw [high_of] at hhigh hopen
  have hx : x = x / 2 ^ q * 2 ^ q := by field_simp
  generalize x / 2 ^ q = y at *
  subst hx
  have hlow' : (4 * m - 2 : ℚ) * (2 ^ q / 4) ≤ y * 2 ^ q :=
    le_trans (by gcongr) hlow
  constructor
  · rw [abs_le]
    constructor <;> nlinarith
  · intro hodd
    have hclosed : (Rounding.of m q).closed = false := by
      simp [Rounding.of, hodd]
    obtain ⟨hlt, hgt⟩ := hopen hclosed
    have hlt' : (4 * m - 2 : ℚ) * (2 ^ q / 4) < y * 2 ^ q :=
      lt_of_le_of_lt (by gcongr) hlt
    rw [abs_lt]
    constructor <;> nlinarith

theorem lt_of_holds {m : Nat} {q : Int} {x : ℚ} (hm : m < 2 ^ 53)
    (h : (Rounding.of m q).Holds (q - 2) x) : x < 2 ^ (53 + q) := by
  have hpow : (0 : ℚ) < 2 ^ q := by positivity
  have hbound : (m : ℚ) + 1 ≤ 2 ^ 53 := by exact_mod_cast hm
  have hhigh := h.2.1
  rw [high_of, zpow_sub_two] at hhigh
  rw [zpow_add₀ (by norm_num)]
  have : (2 : ℚ) ^ (53 : ℤ) = 2 ^ 53 := by norm_num
  nlinarith

/-- Only the interval of the least significand reaches below it, by a quarter of a unit. -/
theorem low_of_below {m : Nat} {q : Int} {x : ℚ} (hmq : Canonical m q) (hq : -1074 < q)
    (h : (Rounding.of m q).Holds (q - 2) x) (hbelow : x < 2 ^ (52 + q)) :
    m = 2 ^ 52 ∧ (2 ^ 52 - 1 / 4 : ℚ) * 2 ^ q ≤ x := by
  have hpow : (0 : ℚ) < 2 ^ q := by positivity
  have hlow := h.1
  rw [zpow_sub_two] at hlow
  have htwo : (2 : ℚ) ^ (52 : ℤ) = 2 ^ 52 := by norm_num
  rw [zpow_add₀ (by norm_num), htwo] at hbelow
  have hm : m = 2 ^ 52 := by
    by_contra hne
    have hge : 2 ^ 52 + 1 ≤ m := by
      have := hmq.normal hq
      omega
    have hge' : (2 ^ 52 + 1 : ℚ) ≤ m := by exact_mod_cast hge
    have hleast := le_low m q
    nlinarith
  refine ⟨hm, ?_⟩
  subst hm
  have hleast : (Rounding.of (2 ^ 52) q).low = 4 * 2 ^ 52 - 1 := if_pos ⟨rfl, hq⟩
  rw [hleast] at hlow
  refine le_trans (le_of_eq ?_) hlow
  norm_num
  ring

/-- Just below the least significand of an exponent, the units are half as large. -/
theorem log_of_below {q : Int} {x : ℚ} (hlow : (2 ^ 52 - 1 / 4 : ℚ) * 2 ^ q ≤ x)
    (hbelow : x < 2 ^ (52 + q)) : Int.log 2 x = 51 + q := by
  have hpow : (0 : ℚ) < 2 ^ q := by positivity
  have hpos : 0 < x := by nlinarith
  have hge : 51 + q ≤ Int.log 2 x := by
    rw [← Int.zpow_le_iff_le_log (by decide) hpos]
    push_cast
    rw [zpow_add₀ (by norm_num)]
    have : (2 : ℚ) ^ (51 : ℤ) = 2 ^ 51 := by norm_num
    nlinarith
  have hlt : Int.log 2 x < 52 + q := by
    rw [← Int.lt_zpow_iff_log_lt (by decide) hpos]
    exact_mod_cast hbelow
  omega

theorem roundsTo_of_below {q : Int} {x : ℚ} (hlow : (2 ^ 52 - 1 / 4 : ℚ) * 2 ^ q ≤ x)
    (hbelow : x < 2 ^ (52 + q)) : RoundsTo (x / 2 ^ (q - 1)) (2 ^ 53) := by
  have hpow : (0 : ℚ) < 2 ^ q := by positivity
  have htwo : (2 : ℚ) ^ (52 : ℤ) = 2 ^ 52 := by norm_num
  rw [zpow_add₀ (by norm_num), htwo] at hbelow
  have hhalf : x / (2 ^ q / 2 ^ (1 : ℤ)) = 2 * (x / 2 ^ q) := by field_simp
  rw [zpow_sub₀ (by norm_num), hhalf]
  have hx : x = x / 2 ^ q * 2 ^ q := by field_simp
  generalize x / 2 ^ q = y at *
  rw [hx] at hlow hbelow
  refine ⟨?_, fun hodd => absurd hodd (by decide)⟩
  rw [abs_le]
  push_cast
  constructor <;> nlinarith

/-- A quotient in the interval of a number is read as that number. -/
theorem nearestBits_of_holds (negative : Bool) {num den m : Nat} {q : Int} (hnum : num ≠ 0)
    (hden : den ≠ 0) (hmq : Canonical m q)
    (h : (Rounding.of m q).Holds (q - 2) ((num : ℚ) / den)) :
    nearestBits negative num den = (if negative then 2 ^ 63 else 0) +
      min ((q + 1074).toNat * 2 ^ 52 + m) (2047 * 2 ^ 52) := by
  have hn : (0 : ℚ) < num := by exact_mod_cast Nat.pos_of_ne_zero hnum
  have hd : (0 : ℚ) < den := by exact_mod_cast Nat.pos_of_ne_zero hden
  have hpos : (0 : ℚ) < (num : ℚ) / den := by positivity
  have hunit := unitExponent_eq hnum hden
  have hlt : Int.log 2 ((num : ℚ) / den) < 53 + q :=
    (Int.lt_zpow_iff_log_lt (by decide) hpos).mp (by exact_mod_cast lt_of_holds hmq.lt h)
  have hle := hmq.le
  by_cases hsame : -1074 < q → (2 : ℚ) ^ (52 + q) ≤ (num : ℚ) / den
  · have hexp : unitExponent num den = q := by
      rw [hunit]
      by_cases hq : -1074 < q
      · have hlog : 52 + q ≤ Int.log 2 ((num : ℚ) / den) :=
          (Int.zpow_le_iff_le_log (by decide) hpos).mp (by exact_mod_cast hsame hq)
        omega
      · omega
    have hround : RoundsTo ((num : ℚ) / den / 2 ^ unitExponent num den) m := by
      rw [hexp]
      exact roundsTo_of_holds h
    rw [nearestBits_of_roundsTo negative hnum hden hround, hexp]
  · rw [Classical.not_imp, not_le] at hsame
    obtain ⟨hq, hbelow⟩ := hsame
    obtain ⟨rfl, hlow⟩ := low_of_below hmq hq h hbelow
    have hexp : unitExponent num den = q - 1 := by
      rw [hunit, log_of_below hlow hbelow]
      omega
    have hround : RoundsTo ((num : ℚ) / den / 2 ^ unitExponent num den) (2 ^ 53) := by
      rw [hexp]
      exact roundsTo_of_below hlow hbelow
    have hbits : (q - 1 + 1074).toNat * 2 ^ 52 + 2 ^ 53 = (q + 1074).toNat * 2 ^ 52 + 2 ^ 52 := by
      omega
    rw [nearestBits_of_roundsTo negative hnum hden hround, hexp, hbits]

/-! ## Decimal grids -/

/-- The positive and the negative part of an exponent. -/
theorem zpow_toNat {b : ℚ} (hb : b ≠ 0) (e : Int) :
    b ^ e = b ^ e.toNat / b ^ (-e).toNat := by
  rw [← zpow_natCast, ← zpow_natCast, ← zpow_sub₀ hb]
  congr 1
  omega

/-- The unit of a grid. -/
def gridUnit (e k : Int) : Nat :=
  Nat.pow 2 (-e).toNat * Nat.pow 10 k.toNat

theorem gridUnit_pos (e k : Int) : 0 < gridUnit e k :=
  Nat.mul_pos (Nat.pow_pos (by decide)) (Nat.pow_pos (by decide))

theorem onGrid_snd (x : Nat) (e k : Int) : (onGrid x e k).2 = gridUnit e k := rfl

theorem onGrid_fst (x : Nat) (e k : Int) :
    ((onGrid x e k).1 : ℚ) = x * 2 ^ e / 10 ^ k * gridUnit e k := by
  have htwo := zpow_toNat (b := 2) (by norm_num) e
  have hten := zpow_toNat (b := 10) (by norm_num) k
  simp only [onGrid, gridUnit, Nat.pow_eq]
  push_cast
  rw [htwo, hten]
  field_simp

theorem holds_iff (r : Rounding) (e k : Int) (c : Nat) :
    r.holds e k c = true ↔ r.Holds e (c * 10 ^ k) := by
  have hunit : (0 : ℚ) < gridUnit e k := by exact_mod_cast gridUnit_pos e k
  have hpow : (0 : ℚ) < 10 ^ k := by positivity
  have hlow : ∀ x : Nat, (onGrid x e k).1 ≤ c * gridUnit e k ↔ (x : ℚ) * 2 ^ e ≤ c * 10 ^ k := by
    intro x
    rw [← div_le_iff₀ hpow, ← mul_le_mul_iff_left₀ hunit, ← onGrid_fst]
    exact_mod_cast Iff.rfl
  have hhigh : ∀ x : Nat, c * gridUnit e k ≤ (onGrid x e k).1 ↔ (c : ℚ) * 10 ^ k ≤ x * 2 ^ e := by
    intro x
    rw [← le_div_iff₀ hpow, ← mul_le_mul_iff_left₀ hunit, ← onGrid_fst]
    exact_mod_cast Iff.rfl
  have hlow' : ∀ x : Nat, (onGrid x e k).1 < c * gridUnit e k ↔ (x : ℚ) * 2 ^ e < c * 10 ^ k :=
    fun x => by rw [← not_le, hhigh, not_le]
  have hhigh' : ∀ x : Nat, c * gridUnit e k < (onGrid x e k).1 ↔ (c : ℚ) * 10 ^ k < x * 2 ^ e :=
    fun x => by rw [← not_le, hlow, not_le]
  unfold Rounding.holds Rounding.Holds
  cases r.closed with
  | true =>
    simp only [if_true, Bool.and_eq_true, decide_eq_true_eq, onGrid_snd, hlow, hhigh]
    simp
  | false =>
    simp only [Bool.false_eq_true, if_false, Bool.and_eq_true, decide_eq_true_eq, onGrid_snd,
      hlow', hhigh']
    exact ⟨fun h => ⟨h.1.le, h.2.le, fun _ => h⟩, fun h => h.2.2 trivial⟩

theorem onGrid_div (x : Nat) (e k : Int) :
    (onGrid x e k).1 / gridUnit e k = ⌊(x : ℚ) * 2 ^ e / 10 ^ k⌋₊ := by
  have hunit : (gridUnit e k : ℚ) ≠ 0 := by exact_mod_cast (gridUnit_pos e k).ne'
  rw [← Nat.floor_div_eq_div (K := ℚ), onGrid_fst, mul_div_assoc, div_self hunit, mul_one]

/-- The candidates on a grid are the neighbours of the value. -/
theorem pick?_cases {r : Rounding} {e k : Int} {c : Nat} (h : r.pick? e k = some c) :
    r.Holds e (c * 10 ^ k) ∧
      (c = ⌊(r.value : ℚ) * 2 ^ e / 10 ^ k⌋₊ ∨ c = ⌊(r.value : ℚ) * 2 ^ e / 10 ^ k⌋₊ + 1) := by
  unfold Rounding.pick? at h
  simp only [onGrid_snd, onGrid_div] at h
  rw [← holds_iff]
  split at h
  · rename_i hb ha
    split at h <;> cases h
    · exact ⟨hb, .inl rfl⟩
    · exact ⟨ha, .inr rfl⟩
  · rename_i hb _
    cases h
    exact ⟨hb, .inl rfl⟩
  · rename_i _ ha
    cases h
    exact ⟨ha, .inr rfl⟩
  · cases h

theorem pick?_isSome {r : Rounding} {e k : Int}
    (h : r.Holds e (⌊(r.value : ℚ) * 2 ^ e / 10 ^ k⌋₊ * 10 ^ k) ∨
      r.Holds e ((⌊(r.value : ℚ) * 2 ^ e / 10 ^ k⌋₊ + 1 : ℕ) * 10 ^ k)) :
    (r.pick? e k).isSome = true := by
  rw [← holds_iff, ← holds_iff] at h
  unfold Rounding.pick?
  simp only [onGrid_snd, onGrid_div]
  split
  · split <;> rfl
  · rfl
  · rfl
  · rename_i hb ha
    rw [hb, ha] at h
    simp at h

/-! ## The power of ten above a number -/

theorem digitCount_spec {n : Nat} (hn : n ≠ 0) :
    (10 : ℚ) ^ ((digitCount n : Int) - 1) ≤ n ∧ (n : ℚ) < 10 ^ (digitCount n : Int) := by
  have hcount : digitCount n = (Nat.toDigits 10 n).length := if_neg hn
  have hpos : 0 < (Nat.toDigits 10 n).length := Nat.length_toDigits_pos
  rw [hcount]
  constructor
  · obtain ⟨l, hl⟩ := Nat.exists_eq_succ_of_ne_zero hpos.ne'
    have hexp : ((Nat.toDigits 10 n).length : Int) - 1 = (l : Int) := by omega
    rw [hexp, zpow_natCast]
    have hle : 10 ^ l ≤ n := by
      by_contra hlt
      cases l with
      | zero => omega
      | succ l =>
        have := (Nat.length_toDigits_le_iff (by decide) (by omega)).mpr (Nat.not_le.mp hlt)
        omega
    exact_mod_cast hle
  · rw [zpow_natCast]
    exact_mod_cast (Nat.length_toDigits_le_iff (by decide) hpos).mp le_rfl

theorem magnitude_spec {num den : Nat} (hnum : num ≠ 0) (hden : den ≠ 0) :
    (10 : ℚ) ^ (magnitude num den - 1) ≤ (num : ℚ) / den ∧
      (num : ℚ) / den < 10 ^ magnitude num den := by
  have hn : (0 : ℚ) < num := by exact_mod_cast Nat.pos_of_ne_zero hnum
  have hd : (0 : ℚ) < den := by exact_mod_cast Nat.pos_of_ne_zero hden
  obtain ⟨hnlow, hnhigh⟩ := digitCount_spec hnum
  obtain ⟨hdlow, hdhigh⟩ := digitCount_spec hden
  have hlow : (10 : ℚ) ^ ((digitCount num : Int) - digitCount den - 1) ≤ (num : ℚ) / den := by
    rw [le_div_iff₀ hd]
    calc (10 : ℚ) ^ ((digitCount num : Int) - digitCount den - 1) * den
        ≤ 10 ^ ((digitCount num : Int) - digitCount den - 1) * 10 ^ (digitCount den : Int) := by
          gcongr
      _ = 10 ^ ((digitCount num : Int) - 1) := by
          rw [← zpow_add₀ (by norm_num)]
          congr 1
          ring
      _ ≤ num := hnlow
  have hhigh : (num : ℚ) / den < 10 ^ ((digitCount num : Int) - digitCount den + 1) := by
    rw [div_lt_iff₀ hd]
    calc (num : ℚ) < 10 ^ (digitCount num : Int) := hnhigh
      _ = 10 ^ ((digitCount num : Int) - digitCount den + 1) *
          10 ^ ((digitCount den : Int) - 1) := by
          rw [← zpow_add₀ (by norm_num)]
          congr 1
          ring
      _ ≤ 10 ^ ((digitCount num : Int) - digitCount den + 1) * den := by
          gcongr
  have hbelow : ∀ k : Int, num * Nat.pow 10 (-k).toNat < den * Nat.pow 10 k.toNat ↔
      (num : ℚ) / den < 10 ^ k := by
    intro k
    rw [zpow_toNat (by norm_num) k, div_lt_div_iff₀ hd (by positivity), Nat.pow_eq, Nat.pow_eq,
      mul_comm ((10 : ℚ) ^ k.toNat)]
    exact_mod_cast Iff.rfl
  unfold magnitude
  simp only [hbelow]
  split
  · exact ⟨hlow, ‹_›⟩
  · rename_i hge
    rw [add_sub_cancel_right]
    exact ⟨not_lt.mp hge, hhigh⟩

/-! ## Seventeen digits are enough -/

theorem low_le {m : Nat} {q : Int} (hm : m ≠ 0) :
    ((Rounding.of m q).low : ℚ) ≤ 4 * m - 2 ∨
      (m = 2 ^ 52 ∧ ((Rounding.of m q).low : ℚ) = 4 * m - 1) := by
  by_cases hedge : m = 2 ^ 52 ∧ -1074 < q
  · refine .inr ⟨hedge.1, ?_⟩
    have hlow : (Rounding.of m q).low = 4 * m - 1 := if_pos hedge
    rw [hlow, Nat.cast_sub (by omega)]
    push_cast
    rfl
  · left
    have hlow : (Rounding.of m q).low = 4 * m - 2 := if_neg hedge
    rw [hlow, Nat.cast_sub (by omega)]
    push_cast
    rfl

/-- What differs from a number by half a unit of its seventeenth digit at most reads back. -/
theorem holds_of_close {m : Nat} {q : Int} (hm : m ≠ 0) (hlt : m < 2 ^ 53) {x : ℚ}
    (hx : |x - m * 2 ^ q| ≤ m * 2 ^ q / (2 * 10 ^ 16)) : (Rounding.of m q).Holds (q - 2) x := by
  have hpow : (0 : ℚ) < 2 ^ q := by positivity
  have hm' : (0 : ℚ) < m := by exact_mod_cast Nat.pos_of_ne_zero hm
  have hlt' : (m : ℚ) < 2 ^ 53 := by exact_mod_cast hlt
  obtain ⟨hbelow, habove⟩ := abs_le.mp hx
  have hhalf : (m : ℚ) * 2 ^ q / (2 * 10 ^ 16) < 2 ^ q / 2 := by
    rw [div_lt_div_iff₀ (by norm_num) (by norm_num)]
    nlinarith
  have hhigh : x < (Rounding.of m q).high * 2 ^ (q - 2) := by
    rw [high_of, zpow_sub_two]
    nlinarith
  have hlow : (Rounding.of m q).low * 2 ^ (q - 2) < x := by
    rw [zpow_sub_two]
    rcases low_le hm (q := q) with hle | ⟨hedge, heq⟩
    · have : ((Rounding.of m q).low : ℚ) * (2 ^ q / 4) ≤ (4 * m - 2) * (2 ^ q / 4) := by gcongr
      nlinarith
    · have hquarter : (m : ℚ) * 2 ^ q / (2 * 10 ^ 16) < 2 ^ q / 4 := by
        rw [hedge, div_lt_div_iff₀ (by norm_num) (by norm_num)]
        push_cast
        nlinarith
      rw [heq]
      nlinarith
  exact ⟨hlow.le, hhigh.le, fun _ => ⟨hlow, hhigh⟩⟩

theorem value_of (m : Nat) (q : Int) :
    ((Rounding.of m q).value : ℚ) * 2 ^ (q - 2) = m * 2 ^ q := by
  rw [zpow_sub_two]
  simp only [Rounding.of]
  push_cast
  ring

/-- One of the neighbours of a number reads back on the grid of its seventeenth digit. -/
theorem pick?_seventeen {m : Nat} {q point : Int} (hm : m ≠ 0) (hlt : m < 2 ^ 53)
    (hpoint : (10 : ℚ) ^ (point - 1) ≤ m * 2 ^ q) :
    ((Rounding.of m q).pick? (q - 2) (point - 17)).isSome = true := by
  apply pick?_isSome
  rw [value_of]
  have hgrid : (0 : ℚ) < 10 ^ (point - 17) := by positivity
  have hsmall : (10 : ℚ) ^ (point - 17) * 10 ^ 16 ≤ m * 2 ^ q := by
    refine le_trans (le_of_eq ?_) hpoint
    rw [← zpow_natCast, ← zpow_add₀ (by norm_num)]
    congr 1
    push_cast
    ring
  have hvalue : (m : ℚ) * 2 ^ q = m * 2 ^ q / 10 ^ (point - 17) * 10 ^ (point - 17) := by
    field_simp
  have hle := Nat.floor_le (a := (m : ℚ) * 2 ^ q / 10 ^ (point - 17)) (by positivity)
  have hgt := Nat.lt_floor_add_one ((m : ℚ) * 2 ^ q / 10 ^ (point - 17))
  have hhalf : (10 : ℚ) ^ (point - 17) / 2 ≤ m * 2 ^ q / (2 * 10 ^ 16) := by
    rw [div_le_div_iff₀ (by norm_num) (by norm_num)]
    linarith
  generalize (m : ℚ) * 2 ^ q / 10 ^ (point - 17) = y at *
  by_cases hclose : y - ⌊y⌋₊ ≤ 1 / 2
  · left
    refine holds_of_close hm hlt (le_trans ?_ hhalf)
    rw [abs_le, hvalue]
    constructor <;> nlinarith
  · right
    refine holds_of_close hm hlt (le_trans ?_ hhalf)
    rw [abs_le, hvalue]
    push_cast
    constructor <;> nlinarith

/-! ## Shortest digits -/

theorem stripZeros_spec (fuel n : Nat) : ∃ z, n = stripZeros fuel n * 10 ^ z := by
  induction fuel generalizing n with
  | zero => exact ⟨0, by simp [stripZeros]⟩
  | succ fuel ih =>
    unfold stripZeros
    split
    · obtain ⟨z, hz⟩ := ih (n / 10)
      refine ⟨z + 1, ?_⟩
      rw [pow_succ, ← mul_assoc, ← hz]
      omega
    · exact ⟨0, by simp⟩

/-- The number of decimal digits is settled by the powers of ten around a number. -/
theorem length_toDigits_eq {n l : Nat} (hlow : 10 ^ l ≤ n) (hhigh : n < 10 ^ (l + 1)) :
    (Nat.toDigits 10 n).length = l + 1 := by
  have hpos : 0 < (Nat.toDigits 10 n).length := Nat.length_toDigits_pos
  have hle : (Nat.toDigits 10 n).length ≤ l + 1 :=
    (Nat.length_toDigits_le_iff (by decide) (by omega)).mpr hhigh
  by_contra hne
  have hless := (Nat.length_toDigits_le_iff (b := 10) (n := n) (k := l) (by decide) (by omega)).mp
    (by omega)
  omega

theorem toDigits_bounds {n : Nat} (hn : n ≠ 0) :
    ∃ l, (Nat.toDigits 10 n).length = l + 1 ∧ 10 ^ l ≤ n ∧ n < 10 ^ (l + 1) := by
  obtain ⟨hlow, hhigh⟩ := digitCount_spec hn
  have hcount : digitCount n = (Nat.toDigits 10 n).length := if_neg hn
  obtain ⟨l, hl⟩ := Nat.exists_eq_succ_of_ne_zero (Nat.length_toDigits_pos (b := 10) (n := n)).ne'
  rw [hcount, hl] at hlow hhigh
  refine ⟨l, hl, ?_, ?_⟩
  · rw [Nat.succ_eq_add_one, Nat.cast_add, Nat.cast_one, add_sub_cancel_right, zpow_natCast] at hlow
    exact_mod_cast hlow
  · rw [zpow_natCast] at hhigh
    exact_mod_cast hhigh

theorem length_toDigits_mul {n : Nat} (hn : n ≠ 0) (z : Nat) :
    (Nat.toDigits 10 (n * 10 ^ z)).length = (Nat.toDigits 10 n).length + z := by
  obtain ⟨l, hl, hlow, hhigh⟩ := toDigits_bounds hn
  have hpow : 0 < 10 ^ z := Nat.pow_pos (by decide)
  rw [hl, add_right_comm]
  apply length_toDigits_eq
  · rw [pow_add]
    exact Nat.mul_le_mul_right _ hlow
  · rw [add_right_comm, pow_add]
    exact Nat.mul_lt_mul_of_pos_right hhigh hpow

/-- The value of digits with a point. -/
def Digits.value (d : Digits) : ℚ :=
  d.digits * 10 ^ (d.point - (Nat.toDigits 10 d.digits).length)

/-- The zeros at the end of a number on a grid do not count. -/
theorem value_stripZeros {l c : Nat} (point : Int) (hlow : 10 ^ l ≤ c) (hhigh : c ≤ 10 ^ (l + 1)) :
    Digits.value ⟨stripZeros (l + 1) c, if c = Nat.pow 10 (l + 1) then point + 1 else point⟩ =
      c * 10 ^ (point - (l + 1 : Nat)) := by
  obtain ⟨z, hz⟩ := stripZeros_spec (l + 1) c
  have hpow : 0 < 10 ^ l := Nat.pow_pos (by decide)
  have hstrip : stripZeros (l + 1) c ≠ 0 := by
    intro hzero
    rw [hzero, zero_mul] at hz
    omega
  have hlength := length_toDigits_mul hstrip z
  rw [← hz] at hlength
  have hexp : ((if c = Nat.pow 10 (l + 1) then point + 1 else point : Int) -
      (Nat.toDigits 10 (stripZeros (l + 1) c)).length) = point - (l + 1 : Nat) + z := by
    split
    · rename_i heq
      have : (Nat.toDigits 10 c).length = l + 1 + 1 :=
        length_toDigits_eq heq.ge (heq.trans_lt (Nat.pow_lt_pow_right (by decide) (by omega)))
      omega
    · rename_i hne
      have : (Nat.toDigits 10 c).length = l + 1 :=
        length_toDigits_eq hlow (lt_of_le_of_ne hhigh hne)
      omega
  unfold Digits.value
  simp only
  rw [hexp, zpow_add₀ (by norm_num), zpow_natCast]
  have hz' : (c : ℚ) = stripZeros (l + 1) c * 10 ^ z := by exact_mod_cast hz
  rw [hz']
  ring

/-- The neighbours of a number on a grid have as many digits as the grid has below its point. -/
theorem bounds_of_floor {y : ℚ} {l c : Nat} (hlow : (10 : ℚ) ^ l ≤ y) (hhigh : y < 10 ^ (l + 1))
    (hc : c = ⌊y⌋₊ ∨ c = ⌊y⌋₊ + 1) : 10 ^ l ≤ c ∧ c ≤ 10 ^ (l + 1) := by
  have hfloor : 10 ^ l ≤ ⌊y⌋₊ := Nat.le_floor (by exact_mod_cast hlow)
  have hceil : ⌊y⌋₊ < 10 ^ (l + 1) :=
    (Nat.floor_lt (le_trans (by positivity) hlow)).mpr (by exact_mod_cast hhigh)
  omega

/-- The shortest digits of a number are found on a grid around it. -/
theorem shortest_cases {m : Nat} {q : Int} (hm : m ≠ 0) (hlt : m < 2 ^ 53) :
    ∃ (l c : Nat) (point : Int), (10 : ℚ) ^ (point - 1) ≤ m * 2 ^ q ∧
      (m : ℚ) * 2 ^ q < 10 ^ point ∧
      (Rounding.of m q).pick? (q - 2) (point - (l + 1 : Nat)) = some c ∧
      shortest m q =
        ⟨stripZeros (l + 1) c, if c = Nat.pow 10 (l + 1) then point + 1 else point⟩ := by
  have hvalue : (0 : ℚ) < m * 2 ^ q := by
    have : (0 : ℚ) < m := by exact_mod_cast Nat.pos_of_ne_zero hm
    positivity
  have hden : (onGrid (Rounding.of m q).value (q - 2) 0).2 ≠ 0 := (gridUnit_pos _ _).ne'
  have hratio : ((onGrid (Rounding.of m q).value (q - 2) 0).1 : ℚ) /
      (onGrid (Rounding.of m q).value (q - 2) 0).2 = m * 2 ^ q := by
    have hunit : (gridUnit (q - 2) 0 : ℚ) ≠ 0 := by exact_mod_cast (gridUnit_pos _ _).ne'
    rw [onGrid_fst, onGrid_snd, mul_div_assoc, div_self hunit, value_of]
    simp
  have hnum : (onGrid (Rounding.of m q).value (q - 2) 0).1 ≠ 0 := by
    intro hzero
    rw [hzero, Nat.cast_zero, zero_div] at hratio
    exact hvalue.ne hratio
  obtain ⟨hlow, hhigh⟩ := magnitude_spec hnum hden
  rw [hratio] at hlow hhigh
  unfold shortest
  simp only
  generalize magnitude _ _ = point at *
  have hsome : ((List.range' 1 17).findSome? fun n : Nat =>
      ((Rounding.of m q).pick? (q - 2) (point - n)).map fun c => (n, c)).isSome = true := by
    rw [List.findSome?_isSome_iff]
    refine ⟨17, by decide, ?_⟩
    rw [Option.isSome_map]
    exact pick?_seventeen hm hlt hlow
  obtain ⟨⟨n, c⟩, hfound⟩ := Option.isSome_iff_exists.mp hsome
  obtain ⟨n', hmem, hpick⟩ := List.exists_of_findSome?_eq_some hfound
  obtain ⟨c', hpick, heq⟩ := Option.map_eq_some_iff.mp hpick
  cases heq
  obtain ⟨l, rfl⟩ : ∃ l, n = l + 1 := by
    rw [List.mem_range'_1] at hmem
    exact ⟨n - 1, by omega⟩
  refine ⟨l, c, point, hlow, hhigh, hpick, ?_⟩
  rw [hfound]

/-- The shortest digits of a number read back as that number. -/
theorem holds_shortest {m : Nat} {q : Int} (hm : m ≠ 0) (hlt : m < 2 ^ 53) :
    (Rounding.of m q).Holds (q - 2) (shortest m q).value := by
  obtain ⟨l, c, point, hlow, hhigh, hpick, hshort⟩ := shortest_cases hm hlt
  obtain ⟨hholds, hc⟩ := pick?_cases hpick
  rw [value_of] at hc
  have hgrid : (0 : ℚ) < 10 ^ (point - (l + 1 : Nat)) := by positivity
  have hbounds : 10 ^ l ≤ c ∧ c ≤ 10 ^ (l + 1) := by
    refine bounds_of_floor ?_ ?_ hc
    · have hexp : (l : Int) + (point - (l + 1 : Nat)) = point - 1 := by omega
      rw [le_div_iff₀ hgrid, ← zpow_natCast, ← zpow_add₀ (by norm_num), hexp]
      exact hlow
    · have hexp : ((l + 1 : Nat) : Int) + (point - (l + 1 : Nat)) = point := by omega
      rw [div_lt_iff₀ hgrid, ← zpow_natCast, ← zpow_add₀ (by norm_num), hexp]
      exact hhigh
  rw [hshort, value_stripZeros point hbounds.1 hbounds.2]
  exact hholds

/-! ## Text -/

/-- Positional text spells the value of its digits. -/
theorem positionalDigits_spec (d : Digits) :
    ∃ whole fraction,
      IsPositional (positionalDigits (Nat.toDigits 10 d.digits) d.point) whole fraction ∧
      (Nat.ofDigitChars 10 (whole ++ fraction) 0 : ℚ) / 10 ^ fraction.length = d.value := by
  have hne : Nat.toDigits 10 d.digits ≠ [] := Nat.toDigits_ne_nil
  have hds := Token.all_isDigit_toDigits d.digits
  have hread : Nat.ofDigitChars 10 (Nat.toDigits 10 d.digits) 0 = d.digits :=
    Nat.ofDigitChars_ten_toDigits
  have hzeros : ∀ z, (List.replicate z '0').all Char.isDigit = true := by simp
  unfold positionalDigits Digits.value
  generalize Nat.toDigits 10 d.digits = ds at *
  split
  · refine ⟨['0'], List.replicate (-d.point).toNat '0' ++ ds, ⟨nofun, rfl, ?_, rfl⟩, ?_⟩
    · rw [List.all_append, hzeros, hds, Bool.and_self]
    · have hnum : Nat.ofDigitChars 10 (['0'] ++ (List.replicate (-d.point).toNat '0' ++ ds)) 0 =
          d.digits := by
        simp [Nat.ofDigitChars_append, Nat.ofDigitChars_cons, hread]
      have hexp : d.point - ds.length = -(((-d.point).toNat + ds.length : Nat) : Int) := by omega
      rw [hnum, List.length_append, List.length_replicate, hexp, zpow_neg, zpow_natCast, div_eq_mul_inv]
  split
  · refine ⟨ds ++ List.replicate (d.point.toNat - ds.length) '0', ['0'], ⟨?_, ?_, rfl, rfl⟩, ?_⟩
    · exact List.append_ne_nil_of_left_ne_nil hne _
    · rw [List.all_append, hzeros, hds, Bool.and_self]
    · have hnum : Nat.ofDigitChars 10
          (ds ++ List.replicate (d.point.toNat - ds.length) '0' ++ ['0']) 0 =
          10 * (10 ^ (d.point.toNat - ds.length) * d.digits) := by
        simp [Nat.ofDigitChars_append, Nat.ofDigitChars_cons, hread]
      have hexp : d.point - ds.length = ((d.point.toNat - ds.length : Nat) : Int) := by omega
      rw [hnum, hexp, zpow_natCast]
      push_cast
      simp
      ring
  · have hsplit := List.take_append_drop d.point.toNat ds
    have hall := hds
    rw [← hsplit, List.all_append, Bool.and_eq_true] at hall
    refine ⟨ds.take d.point.toNat, ds.drop d.point.toNat, ⟨?_, hall.1, hall.2, rfl⟩, ?_⟩
    · intro hnil
      rcases List.take_eq_nil_iff.mp hnil with hzero | hnil
      · omega
      · exact hne hnil
    · have hexp : d.point - ds.length = -((ds.length - d.point.toNat : Nat) : Int) := by omega
      rw [hsplit, hread, List.length_drop, hexp, zpow_neg, zpow_natCast, div_eq_mul_inv]

/-! ## Reading back -/

theorem eq_of_toBits {x y : Float} (h : x.toBits.toNat = y.toBits.toNat) : x = y := by
  have hbits : x.toModel.toBits = y.toModel.toBits := UInt64.toNat_inj.mp h
  obtain ⟨⟨_, _⟩⟩ := x
  obtain ⟨⟨_, _⟩⟩ := y
  cases hbits
  rfl

/-- The parts of a finite number. -/
theorem ofFloat?_spec {x : Float} (h : x.isFinite = true) :
    ∃ d, Dyadic.ofFloat? x = some d ∧ Canonical d.significand d.exponent ∧
      x.toBits.toNat = (if d.negative then 2 ^ 63 else 0) +
        min ((d.exponent + 1074).toNat * 2 ^ 52 + d.significand) (2047 * 2 ^ 52) := by
  rw [isFinite_iff] at h
  have hlt : x.toBits.toNat < 2 ^ 64 := x.toBits.toNat_lt
  unfold Dyadic.ofFloat? Dyadic.ofBits?
  generalize x.toBits.toNat = b at *
  have hneg : (if (b / Nat.pow 2 63 % 2 == 1) = true then 2 ^ 63 else 0) = b / 2 ^ 63 * 2 ^ 63 := by
    simp only [Nat.pow_eq, beq_iff_eq]
    split <;> omega
  simp only [Nat.pow_eq] at *
  rw [if_neg h]
  split
  · rename_i hzero
    refine ⟨_, rfl, ⟨?_, ?_, ?_⟩, ?_⟩ 
    · simp only
      omega
    · simp
    · simp
    · simp only [hneg]
      omega
  · rename_i hzero
    refine ⟨_, rfl, ⟨?_, ?_, ?_⟩, ?_⟩
    · simp only
      omega
    · simp only
      omega
    · simp only
      omega
    · simp only [hneg]
      omega

/-- The text of a finite number: a sign, and digits that read as the number. -/
theorem source_spec {x : Float} (h : x.isFinite = true) :
    ∃ (d : Dyadic) (whole fraction : List Char), Dyadic.ofFloat? x = some d ∧
      IsPositional (Layout.source.finite d) whole fraction ∧
      nearest d.negative (Nat.ofDigitChars 10 (whole ++ fraction) 0) (Nat.pow 10 fraction.length) =
        x := by
  obtain ⟨d, hd, hcanonical, hbits⟩ := ofFloat?_spec h
  by_cases hzero : d.significand = 0
  · refine ⟨d, ['0'], ['0'], hd, ⟨nofun, rfl, rfl, ?_⟩, ?_⟩
    · simp [Layout.finite, hzero]
    · apply eq_of_toBits
      have hexp : d.exponent = -1074 := by
        by_contra hne
        have := hcanonical.normal (lt_of_le_of_ne hcanonical.le (Ne.symm hne))
        omega
      have hnum : Nat.ofDigitChars 10 (['0'] ++ ['0']) 0 = 0 := by decide
      rw [toBits_nearest, hbits, hzero, hexp, hnum]
      simp [nearestBits]
  · obtain ⟨whole, fraction, htext, hvalue⟩ :=
      positionalDigits_spec (shortest d.significand d.exponent)
    refine ⟨d, whole, fraction, hd, ?_, ?_⟩
    · simpa [Layout.finite, hzero, Layout.source] using htext
    · apply eq_of_toBits
      have hholds := holds_shortest (q := d.exponent) hzero hcanonical.lt
      rw [← hvalue] at hholds
      have hnum : Nat.ofDigitChars 10 (whole ++ fraction) 0 ≠ 0 := by
        intro hnum
        have hlow := hholds.1
        rw [hnum, Nat.cast_zero, zero_div] at hlow
        have hleast := le_low d.significand d.exponent
        have hone : (1 : ℚ) ≤ d.significand := by exact_mod_cast Nat.one_le_iff_ne_zero.mpr hzero
        have hpow : (0 : ℚ) < 2 ^ (d.exponent - 2) := by positivity
        nlinarith
      have hden : Nat.pow 10 fraction.length ≠ 0 := (Nat.pow_pos (by decide)).ne'
      rw [toBits_nearest, hbits, nearestBits_of_holds _ hnum hden hcanonical]
      rw [Nat.pow_eq]
      push_cast
      exact hholds

theorem toList_source {x : Float} {d : Dyadic} (hd : Dyadic.ofFloat? x = some d) :
    (source x).toList = (if d.negative then ['-'] else []) ++ Layout.source.finite d := by
  simp [source, Layout.write, hd]

/-- A finite number without a sign is spelled by its text. -/
theorem written_of_positive {x : Float} (h : x.isFinite = true) {d : Dyadic}
    (hd : Dyadic.ofFloat? x = some d) (hsign : d.negative = false) : Written x := by
  obtain ⟨d', whole, fraction, hd', htext, hvalue⟩ := source_spec h
  obtain rfl : d' = d := Option.some.inj (hd'.symm.trans hd)
  rw [hsign] at hvalue
  refine ⟨h, whole, fraction, ?_, hvalue⟩
  rw [toList_source hd, hsign]
  exact htext

theorem written_nearest {num den : Nat} (h : (nearest false num den).isFinite = true) :
    Written (nearest false num den) := by
  obtain ⟨d, hd, hsign⟩ := ofFloat?_nearest h
  exact written_of_positive h hd hsign

end DiceTome.Decimal
