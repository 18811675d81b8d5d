import DiceTome.Proofs.ShortestDigits

/-!
# Signs of decimals

Source text has no negative literals: a number below zero is written as the negation of the number
without its sign.

* `Decimal.neg_neg` and `Decimal.toList_source_neg`: negating the number without the sign gives the
  number back, and its text is the text of the number behind a minus sign.
* `Decimal.beq_self`: a finite number equals itself.
* `Decimal.isFinite_natural`: naturals that literals can spell are in the range of numbers.
-/

namespace DiceTome.Decimal

open Float.Model

/-! ## Negation -/

theorem isFinite_neg {x : Float} (h : x.isFinite = true) : (-x).isFinite = true := by
  have hbits := toBits_neg h
  rw [isFinite_iff] at h ⊢
  rw [hbits]
  split <;> omega

theorem neg_neg {x : Float} (h : x.isFinite = true) : - -x = x := by
  have hlt : x.toBits.toNat < 2 ^ 64 := x.toBits.toNat_lt
  apply eq_of_toBits
  rw [toBits_neg (isFinite_neg h), toBits_neg h]
  split <;> split <;> omega

/-- Only finite numbers are multiples of a power of two. -/
theorem isFinite_of_ofFloat? {x : Float} {d : Dyadic} (hd : Dyadic.ofFloat? x = some d) :
    x.isFinite = true := by
  rw [isFinite_iff]
  intro hbits
  unfold Dyadic.ofFloat? Dyadic.ofBits? at hd
  have hexponent : x.toBits.toNat / Nat.pow 2 52 % Nat.pow 2 11 = 2047 := hbits
  rw [if_pos hexponent] at hd
  cases hd

theorem ofFloat?_neg {x : Float} (h : x.isFinite = true) {d : Dyadic}
    (hd : Dyadic.ofFloat? x = some d) :
    Dyadic.ofFloat? (-x) = some { d with negative := !d.negative } := by
  have hlt : x.toBits.toNat < 2 ^ 64 := x.toBits.toNat_lt
  have hbits := toBits_neg h
  unfold Dyadic.ofFloat? Dyadic.ofBits? at hd ⊢
  generalize x.toBits.toNat = b at *
  generalize (-x).toBits.toNat = c at *
  have hbiased : c / 2 ^ 52 % 2 ^ 11 = b / 2 ^ 52 % 2 ^ 11 := by
    split at hbits <;> omega
  have hfraction : c % 2 ^ 52 = b % 2 ^ 52 := by
    split at hbits <;> omega
  have hnegative : (c / 2 ^ 63 % 2 == 1) = !(b / 2 ^ 63 % 2 == 1) := by
    rw [Bool.eq_iff_iff]
    simp only [beq_iff_eq, Bool.not_eq_true', beq_eq_false_iff_ne]
    split at hbits <;> omega
  simp only [Nat.pow_eq] at hd ⊢
  rw [hbiased, hfraction, hnegative]
  split at hd
  · cases hd
  · rename_i hfinite
    rw [if_neg hfinite]
    split at hd
    · rename_i hzero
      rw [if_pos hzero]
      cases hd
      rfl
    · rename_i hzero
      rw [if_neg hzero]
      cases hd
      rfl

/-- The text of a number with a sign is the text of its negation behind a minus sign. -/
theorem toList_source_neg {x : Float} (h : x.isFinite = true) {d : Dyadic}
    (hd : Dyadic.ofFloat? x = some d) (hsign : d.negative = true) :
    (source x).toList = '-' :: (source (-x)).toList := by
  rw [toList_source hd, toList_source (ofFloat?_neg h hd), hsign]
  rfl

theorem written_neg {x : Float} (h : x.isFinite = true) {d : Dyadic}
    (hd : Dyadic.ofFloat? x = some d) (hsign : d.negative = true) : Written (-x) :=
  written_of_positive (isFinite_neg h) (ofFloat?_neg h hd) (by simp [hsign])

/-! ## Equality -/

/-- A finite number equals itself. -/
theorem beq_self {x : Float} (h : x.isFinite = true) : (x == x) = true := by
  have hunpacked : (UnpackedFloat.unpack .binary64 x.toBits.toBitVec).isFinite = true := h
  change UnpackedFloat.beq (UnpackedFloat.unpack .binary64 x.toBits.toBitVec)
    (UnpackedFloat.unpack .binary64 x.toBits.toBitVec) = true
  cases hx : UnpackedFloat.unpack .binary64 x.toBits.toBitVec with
  | notANumber | infinity _ =>
    rw [hx] at hunpacked
    cases hunpacked
  | zero s => rfl
  | finite s m e hm =>
    cases s <;> simp [UnpackedFloat.beq, UnpackedFloat.compare, Std.ReflCmp.compare_self]

/-! ## Naturals -/

theorem roundDiv_le (num den : Nat) : roundDiv num den ≤ num / den + 1 := by
  unfold roundDiv
  simp only
  split
  · omega
  · split
    · omega
    · split <;> omega

theorem unitExponent_natural {n : Nat} (hn : n ≠ 0) : unitExponent n 1 = (n.log2 : Int) - 52 := by
  have hone : Nat.log2 1 = 0 := by decide
  have hreaches : if 0 ≤ (n.log2 : Int) then 1 * Nat.pow 2 n.log2 ≤ n
      else 1 ≤ n * Nat.pow 2 (-(n.log2 : Int)).toNat := by
    rw [if_pos (Int.natCast_nonneg _), Nat.one_mul]
    exact Nat.log2_self_le hn
  simp only [unitExponent, hone, Nat.cast_zero, sub_zero, Int.toNat_natCast]
  rw [if_pos hreaches]
  omega

/-- The significand that a natural is rounded to. -/
theorem significand_natural_le {n : Nat} (hn : n ≠ 0) :
    (if 0 ≤ unitExponent n 1 then roundDiv n (1 * Nat.pow 2 (unitExponent n 1).toNat)
      else roundDiv (n * Nat.pow 2 (-unitExponent n 1).toNat) 1) ≤ 2 ^ 53 := by
  have hhigh : n < 2 ^ (n.log2 + 1) := Nat.lt_log2_self
  rw [unitExponent_natural hn]
  split
  · rename_i he
    obtain ⟨k, hk⟩ : ∃ k, n.log2 = 52 + k := ⟨n.log2 - 52, by omega⟩
    have hexponent : ((n.log2 : Int) - 52).toNat = k := by omega
    have hdiv : n / 2 ^ k < 2 ^ 53 := by
      rw [Nat.div_lt_iff_lt_mul (Nat.pow_pos (by decide)), ← Nat.pow_add]
      have hsum : 53 + k = n.log2 + 1 := by omega
      rwa [hsum]
    have hround := roundDiv_le n (1 * Nat.pow 2 k)
    rw [hexponent]
    simp only [Nat.pow_eq, Nat.one_mul] at hround ⊢
    omega
  · rename_i he
    obtain ⟨k, hk⟩ : ∃ k, 52 = n.log2 + k := ⟨52 - n.log2, by omega⟩
    have hexponent : (-((n.log2 : Int) - 52)).toNat = k := by omega
    have hmul : n * 2 ^ k < 2 ^ 53 := by
      have hsum : 53 = n.log2 + 1 + k := by omega
      rw [hsum, Nat.pow_add]
      exact Nat.mul_lt_mul_of_pos_right hhigh (Nat.pow_pos (by decide))
    have hround := roundDiv_le (n * Nat.pow 2 k) 1
    rw [hexponent]
    simp only [Nat.pow_eq, Nat.div_one] at hround ⊢
    omega

/-- A natural that a literal can spell is a finite number. -/
theorem isFinite_natural {n : Nat} (hn : n ≤ Token.maxNatural) (negative : Bool) :
    (nearest negative n 1).isFinite = true := by
  have hsmall : ∃ k < 2047 * 2 ^ 52,
      nearestBits negative n 1 = (if negative then 2 ^ 63 else 0) + k := by
    by_cases hzero : n = 0
    · exact ⟨0, by decide, by simp [nearestBits, hzero]⟩
    · have hmax : Token.maxNatural = 2 ^ 64 - 1 := rfl
      have hlog : n.log2 < 64 := (Nat.log2_lt hzero).mpr (by omega)
      have hunit := unitExponent_natural hzero
      have hsignificand := significand_natural_le hzero
      refine ⟨_, lt_of_le_of_lt (Nat.min_le_left _ _) ?_, by simp only [nearestBits, if_neg hzero]; rfl⟩
      rw [Nat.pow_eq]
      omega
  obtain ⟨k, hk, hbits⟩ := hsmall
  rw [isFinite_iff, toBits_nearest, hbits]
  split <;> omega

theorem ofInt?_natural {n : Nat} (hn : n ≤ Token.maxNatural) :
    ∃ x : Float, ofInt? n = some x ∧ x.isFinite = true := by
  have hfinite := isFinite_natural hn ((n : Int) < 0)
  refine ⟨nearest ((n : Int) < 0) n 1, ?_, hfinite⟩
  simp only [ofInt?, Int.natAbs_natCast]
  rw [if_pos hfinite]

end DiceTome.Decimal
