import DiceTome.Decimal.Read
import DiceTome.Decimal.Text
import DiceTome.Proofs.ScannedKinds
import Mathlib

/-!
# The text of decimals

Source text writes a decimal as digits with a point between them, and such text is read as its
digits over a power of ten.

* `Decimal.toBits_nearest`: the bits of a number that is read are those computed for it.
* `Decimal.Written` holds of the numbers that source text can spell.
-/

namespace DiceTome.Decimal

open Float.Model Float.Model.UnpackedFloat

/-! ## Bits -/

theorem toNat_packComponents (s : Sign) (e : BitVec 11) (m : BitVec 52) :
    (packComponents .binary64 s e m).toNat =
      s.toBitVec.toNat * 2 ^ 63 + (e.toNat * 2 ^ 52 + m.toNat) := by
  have he : e.toNat < 2 ^ 11 := e.isLt
  have hm : m.toNat < 2 ^ 52 := m.isLt
  simp only [packComponents, BitVec.toNat_append]
  rw [← Nat.shiftLeft_add_eq_or_of_lt he, ← Nat.shiftLeft_add_eq_or_of_lt hm]
  simp only [Nat.shiftLeft_eq]
  omega

theorem toNat_unpackExponent (b : BitVec 64) :
    (@unpackExponent .binary64 b).toNat = b.toNat / 2 ^ 52 % 2 ^ 11 := by
  simp [unpackExponent, BitVec.extractLsb, BitVec.extractLsb', Nat.shiftRight_eq_div_pow]

theorem toNat_unpackMantissa (b : BitVec 64) :
    (@unpackMantissa .binary64 b).toNat = b.toNat % 2 ^ 52 := by
  simp [unpackMantissa, BitVec.extractLsb, BitVec.extractLsb', Nat.shiftRight_eq_div_pow]

theorem toNat_unpackSign (b : BitVec 64) :
    (@unpackSign .binary64 b).toNat = b.toNat / 2 ^ 63 := by
  have hb : b.toNat < 2 ^ 64 := b.isLt
  simp [unpackSign, BitVec.extractLsb, BitVec.extractLsb', Nat.shiftRight_eq_div_pow]
  omega

theorem toBitVec_ofBitVec (v : BitVec 1) : (Sign.ofBitVec v).toBitVec = v := by
  revert v
  decide

/-- A packed number is made of its parts. -/
theorem packComponents_unpack (b : BitVec 64) :
    packComponents .binary64 (Sign.ofBitVec (@unpackSign .binary64 b))
      (@unpackExponent .binary64 b) (@unpackMantissa .binary64 b) = b := by
  apply BitVec.eq_of_toNat_eq
  rw [toNat_packComponents, toBitVec_ofBitVec, toNat_unpackSign, toNat_unpackExponent,
    toNat_unpackMantissa]
  omega

theorem pack_subnormal (s : Sign) {m : Nat} (hpos : 0 < m) (hm : m < 2 ^ 52) :
    UnpackedFloat.pack .binary64 (.finite s m (-1074) hpos) =
      packComponents .binary64 s 0#11 (BitVec.ofNat 52 m) := by
  have hlog : m.log2 < 52 := (Nat.log2_lt (by omega)).mpr hm
  have hbits : ¬ m.log2 + 1 = Format.binary64.mantissaBits := by
    simp only [Format.mantissaBits]
    omega
  simp only [UnpackedFloat.pack]
  rw [if_neg (by decide), if_neg hbits]

theorem pack_normal (s : Sign) {m k : Nat} (hm : m < 2 ^ 52) (hk : k < 2047)
    (hpos : 0 < 2 ^ 52 + m) :
    UnpackedFloat.pack .binary64 (.finite s (2 ^ 52 + m) ((k : Int) - 1075) hpos) =
      packComponents .binary64 s (BitVec.ofNat 11 k) (BitVec.ofNat 52 m) := by
  have hlog : (2 ^ 52 + m).log2 = 52 :=
    (Nat.log2_eq_iff (by omega)).mpr ⟨by omega, by omega⟩
  have hbits : (2 ^ 52 + m).log2 + 1 = Format.binary64.mantissaBits := by
    rw [hlog]
    rfl
  have hbiased : ((k : Int) - 1075 + Format.binary64.exponentBias +
      Format.binary64.mantissaBitsWithoutImplicit).toNat = k := by
    simp only [Format.exponentBias]
    omega
  simp only [UnpackedFloat.pack]
  rw [hbiased, if_neg (by simp; omega), if_pos hbits]
  congr 1
  apply BitVec.eq_of_toNat_eq
  simp

/-- The number with its sign changed. -/
def resign (f : Sign → Sign) : UnpackedFloat → UnpackedFloat
  | .notANumber => .notANumber
  | .infinity s => .infinity (f s)
  | .zero s => .zero (f s)
  | .finite s m e hm => .finite (f s) m e hm

/-- Packing restores the bits of a number apart from a change of its sign; only what is not a number
may have other bits. -/
theorem pack_resign (f : Sign → Sign) {b : BitVec 64}
    (h : b.toNat / 2 ^ 52 % 2 ^ 11 = 2047 → b.toNat % 2 ^ 52 = 0) :
    UnpackedFloat.pack .binary64 (resign f (UnpackedFloat.unpack .binary64 b)) =
      packComponents .binary64 (f (Sign.ofBitVec (@unpackSign .binary64 b)))
        (@unpackExponent .binary64 b) (@unpackMantissa .binary64 b) := by
  rw [← toNat_unpackExponent, ← toNat_unpackMantissa] at h
  have hmantissa : (@unpackMantissa .binary64 b).toNat < 2 ^ 52 := BitVec.isLt _
  have hexponent : (@unpackExponent .binary64 b).toNat < 2 ^ 11 := BitVec.isLt _
  unfold UnpackedFloat.unpack
  simp only
  split
  · rename_i he
    have hm : @unpackMantissa .binary64 b = 0#52 :=
      BitVec.eq_of_toNat_eq (h (congrArg BitVec.toNat he))
    rw [if_pos hm, he, hm]
    rfl
  rename_i hne
  have hk : (@unpackExponent .binary64 b).toNat < 2047 := by
    have hne' : (@unpackExponent .binary64 b).toNat ≠ 2047 :=
      fun heq => hne (BitVec.eq_of_toNat_eq heq)
    omega
  split
  · rename_i he
    split
    · rename_i hm
      rw [he, hm]
      rfl
    · rename_i hm
      have hexp : ((@unpackExponent .binary64 b).toNat : Int) -
          (Format.binary64.exponentBias + Format.binary64.mantissaBitsWithoutImplicit) + 1 = -1074 := by
        rw [he]
        rfl
      simp only [hexp, resign]
      rw [pack_subnormal _ _ hmantissa, BitVec.ofNat_toNat, BitVec.setWidth_eq, he]
  · have happend : (1#1 ++ @unpackMantissa .binary64 b).toNat =
        2 ^ 52 + (@unpackMantissa .binary64 b).toNat := by
      rw [BitVec.toNat_append, ← Nat.shiftLeft_add_eq_or_of_lt hmantissa]
      rfl
    have hexp : ((@unpackExponent .binary64 b).toNat : Int) -
        (Format.binary64.exponentBias + Format.binary64.mantissaBitsWithoutImplicit) =
          ((@unpackExponent .binary64 b).toNat : Int) - 1075 := rfl
    simp only [happend, hexp, resign]
    rw [pack_normal _ hmantissa hk, BitVec.ofNat_toNat, BitVec.setWidth_eq, BitVec.ofNat_toNat,
      BitVec.setWidth_eq]

theorem pack_unpack {b : BitVec 64}
    (h : b.toNat / 2 ^ 52 % 2 ^ 11 = 2047 → b.toNat % 2 ^ 52 = 0) :
    UnpackedFloat.pack .binary64 (UnpackedFloat.unpack .binary64 b) = b := by
  have hid : ∀ u : UnpackedFloat, resign id u = u := fun u => by cases u <;> rfl
  have hpack := pack_resign id h
  rw [hid] at hpack
  exact hpack.trans (packComponents_unpack b)

theorem toBits_ofBits {b : UInt64}
    (h : b.toNat / 2 ^ 52 % 2 ^ 11 = 2047 → b.toNat % 2 ^ 52 = 0) :
    (Float.ofBits b).toBits = b :=
  congrArg UInt64.ofBitVec (pack_unpack h)

/-- A number is finite unless all bits of its exponent are set. -/
theorem isFinite_iff (x : Float) :
    x.isFinite = true ↔ x.toBits.toNat / 2 ^ 52 % 2 ^ 11 ≠ 2047 := by
  have hexponent := toNat_unpackExponent x.toBits.toBitVec
  rw [UInt64.toNat_toBitVec] at hexponent
  rw [← hexponent]
  have hall : @unpackExponent .binary64 x.toBits.toBitVec = -1#11 ↔
      (@unpackExponent .binary64 x.toBits.toBitVec).toNat = 2047 :=
    ⟨fun heq => congrArg BitVec.toNat heq, fun heq => BitVec.eq_of_toNat_eq heq⟩
  rw [ne_eq, ← hall]
  change (UnpackedFloat.unpack .binary64 x.toBits.toBitVec).isFinite = true ↔ _
  unfold UnpackedFloat.unpack
  simp only
  split
  · rename_i he
    split <;> exact iff_of_false Bool.false_ne_true (fun hne => hne he)
  · rename_i hne
    split
    · split <;> exact iff_of_true rfl hne
    · exact iff_of_true rfl hne

theorem toNat_neg_ofBitVec (v : BitVec 1) :
    (-Sign.ofBitVec v).toBitVec.toNat = 1 - v.toNat := by
  revert v
  decide

/-- Negation flips the first bit. -/
theorem toBits_neg {x : Float} (h : x.isFinite = true) :
    (-x).toBits.toNat =
      if 2 ^ 63 ≤ x.toBits.toNat then x.toBits.toNat - 2 ^ 63 else x.toBits.toNat + 2 ^ 63 := by
  have hneg : ∀ u : UnpackedFloat, u.neg = resign (- ·) u := fun u => by cases u <;> rfl
  have hpack : (-x).toBits.toNat =
      (UnpackedFloat.pack .binary64 (UnpackedFloat.unpack .binary64 x.toBits.toBitVec).neg).toNat :=
    rfl
  have hfinite : x.toBits.toBitVec.toNat / 2 ^ 52 % 2 ^ 11 ≠ 2047 := (isFinite_iff x).mp h
  have hlt : x.toBits.toBitVec.toNat < 2 ^ 64 := x.toBits.toBitVec.isLt
  rw [hpack, hneg, pack_resign _ fun hall => absurd hall hfinite, toNat_packComponents,
    toNat_neg_ofBitVec, toNat_unpackSign, toNat_unpackExponent, toNat_unpackMantissa]
  rw [← UInt64.toNat_toBitVec]
  split <;> omega

theorem nearestBits_eq (negative : Bool) (num den : Nat) :
    ∃ n ≤ 2047 * 2 ^ 52, nearestBits negative num den = (if negative then 2 ^ 63 else 0) + n := by
  unfold nearestBits
  simp only
  split
  · exact ⟨0, Nat.zero_le _, rfl⟩
  · exact ⟨_, Nat.min_le_right _ _, rfl⟩

theorem toBits_nearest (negative : Bool) (num den : Nat) :
    (nearest negative num den).toBits.toNat = nearestBits negative num den := by
  obtain ⟨n, hn, heq⟩ := nearestBits_eq negative num den
  have hlt : nearestBits negative num den < 2 ^ 64 := by
    rw [heq]
    split <;> omega
  have hbits : (nearestBits negative num den).toUInt64.toNat = nearestBits negative num den :=
    UInt64.toNat_ofNat_of_lt hlt
  unfold nearest
  rw [toBits_ofBits, hbits]
  rw [hbits, heq]
  split <;> omega

/-- A finite number that is read without a sign has no sign. -/
theorem ofFloat?_nearest {num den : Nat} (h : (nearest false num den).isFinite = true) :
    ∃ d, Dyadic.ofFloat? (nearest false num den) = some d ∧ d.negative = false := by
  rw [isFinite_iff] at h
  obtain ⟨n, hn, heq⟩ := nearestBits_eq false num den
  rw [toBits_nearest, heq] at h
  unfold Dyadic.ofFloat? Dyadic.ofBits?
  rw [toBits_nearest, heq]
  simp only [Bool.false_eq_true, if_false, Nat.zero_add] at h ⊢
  have hexponent : ¬ n / Nat.pow 2 52 % Nat.pow 2 11 = 2047 := h
  have hsign : (n / Nat.pow 2 63 % 2 == 1) = false := by
    have hzero : n / Nat.pow 2 63 = 0 := by
      show n / 2 ^ 63 = 0
      omega
    rw [hzero]
    rfl
  rw [if_neg hexponent, hsign]
  split <;> exact ⟨_, rfl, rfl⟩

/-! ## Positional text -/

/-- Digits with a point between them and at least one digit before it. -/
def IsPositional (cs : List Char) (whole fraction : List Char) : Prop :=
  whole ≠ [] ∧ whole.all Char.isDigit = true ∧ fraction.all Char.isDigit = true ∧
    cs = whole ++ '.' :: fraction

theorem ne_of_isDigit {c e : Char} (h : c.isDigit = true) (he : e.isDigit = false) : c ≠ e := by
  rintro rfl
  rw [h] at he
  cases he

/-- A number that source text can spell, with digits that read back. -/
def Written (x : Float) : Prop :=
  x.isFinite = true ∧ ∃ whole fraction, IsPositional (source x).toList whole fraction ∧
    ofDigits (Nat.ofDigitChars 10 (whole ++ fraction) 0) fraction.length = x

end DiceTome.Decimal
