import Mathlib
import Stencil.Proofs.Number.Rounding

namespace Stencil.Binary64

open Float.Model UnpackedFloat Rounding

/-- Shifting keeps the first bit that is shifted out, and whether any other of them is set. -/
theorem shiftRight_succ (m k : Nat) :
    (ExtendedMantissa.mk m false false >>> (k + 1)) =
      ⟨m / 2 ^ (k + 1), decide (m / 2 ^ k % 2 = 1), decide (m % 2 ^ k ≠ 0)⟩ := by
  induction k with
  | zero =>
      have hone : (ExtendedMantissa.mk m false false >>> (0 + 1)) =
          (ExtendedMantissa.mk m false false).shiftRightOne := rfl
      rw [hone, ExtendedMantissa.shiftRightOne]
      simp only [Nat.pow_zero, Nat.div_one, Nat.mod_one]
      rcases Nat.mod_two_eq_zero_or_one m with h | h <;> simp [h]
  | succ k ih =>
      have hstep : (ExtendedMantissa.mk m false false >>> (k + 2)) =
          (ExtendedMantissa.mk m false false >>> (k + 1)).shiftRightOne := rfl
      rw [hstep, ih, ExtendedMantissa.shiftRightOne, Nat.div_div_eq_div_mul, ← Nat.pow_succ,
        Nat.mod_pow_succ]
      rcases Nat.mod_two_eq_zero_or_one (m / 2 ^ (k + 1)) with h | h <;>
        rcases Nat.mod_two_eq_zero_or_one (m / 2 ^ k) with h' | h' <;> simp [h, h']

theorem roundedMantissa_mk (q : Nat) (half rest : Bool) :
    (ExtendedMantissa.mk q half rest).roundedMantissa =
      if half then if rest then q + 1 else q + q % 2 else q := by
  cases half <;> cases rest <;> rfl

/-- What is shifted out is compared with half a unit. -/
theorem roundedMantissa_shiftRight (m k : Nat) :
    (ExtendedMantissa.mk m false false >>> k).roundedMantissa = nearest m k := by
  cases k with
  | zero =>
      rw [nearest_zero]
      rfl
  | succ k =>
      have hmod : m % 2 ^ (k + 1) = m % 2 ^ k + 2 ^ k * (m / 2 ^ k % 2) := Nat.mod_pow_succ
      have hpow : 2 ^ (k + 1) = 2 * 2 ^ k := by rw [Nat.pow_succ, Nat.mul_comm]
      have hlt := Nat.mod_lt m (Nat.two_pow_pos k)
      rw [shiftRight_succ, roundedMantissa_mk, nearest]
      rcases Nat.mod_two_eq_zero_or_one (m / 2 ^ k) with hbit | hbit
      · rw [Nat.compare_eq_lt.2 (by rw [hmod, hbit, hpow]; omega)]
        simp [hbit]
      by_cases hr : m % 2 ^ k = 0
      · rw [Nat.compare_eq_eq.2 (by rw [hmod, hbit, hpow]; omega)]
        simp [hbit, hr]
      · rw [Nat.compare_eq_gt.2 (by rw [hmod, hbit, hpow]; omega)]
        simp [hbit, hr]

theorem unpack_pack_finite (s : Sign) {m : Nat} {e : Int} (hm : 2 ^ 52 ≤ m ∧ m < 2 ^ 53)
    (he : -1074 < e ∧ e < 971) (h : 0 < m) :
    UnpackedFloat.unpack Format.binary64 (UnpackedFloat.pack Format.binary64 (.finite s m e h)) =
      .finite s m e h := by
  have hlog : m.log2 = 52 := (Nat.log2_eq_iff (by omega)).2 hm
  obtain ⟨b, rfl⟩ : ∃ b : Nat, e = b - 1075 := ⟨(e + 1075).toNat, by omega⟩
  have hb : 1 < b ∧ b < 2046 := by omega
  have hbias : Format.binary64.exponentBias = 1023 := rfl
  have hbiased : ((b : Int) - 1075 + Format.binary64.exponentBias +
      Format.binary64.mantissaBitsWithoutImplicit).toNat = b := by
    rw [hbias]
    show ((b : Int) - 1075 + 1023 + 52).toNat = b
    omega
  have hexponent : (BitVec.ofNat 11 b).toNat = b := by
    rw [BitVec.toNat_ofNat]
    omega
  have hfull : BitVec.ofNat 11 b ≠ -1#11 := by
    intro hc
    have hnat := congrArg BitVec.toNat hc
    rw [hexponent] at hnat
    simp at hnat
    omega
  have hzero : BitVec.ofNat 11 b ≠ 0#11 := by
    intro hc
    have hnat := congrArg BitVec.toNat hc
    rw [hexponent] at hnat
    simp at hnat
    omega
  have hmantissa : (1#1 ++ BitVec.ofNat 52 m).toNat = m := by
    rw [BitVec.toNat_append, ← Nat.shiftLeft_add_eq_or_of_lt (BitVec.isLt _), BitVec.toNat_ofNat]
    simp only [Nat.shiftLeft_eq, BitVec.toNat_ofNat]
    omega
  rw [UnpackedFloat.pack, hbiased, hlog, if_neg (by simp; omega), if_pos (by rfl), UnpackedFloat.unpack]
  simp only [unpackExponent_packComponents, unpackMantissa_packComponents, unpackSign_packComponents,
    Sign.ofBitVec_toBitVec]
  rw [if_neg hfull, if_neg hzero]
  simp only [hmantissa, hexponent, hbias]
  congr 1

theorem targetExponent_eq (x : Int) : Format.binary64.targetExponent x = max (x - 53) (-1074) := rfl

theorem shiftToTargetExponent_bits {n : Nat} (hn : n ≠ 0) :
    shiftToTargetExponent Format.binary64 (n <<< (52 - n.log2)) (-(52 - n.log2 : Nat)) .exact =
      (ExtendedMantissa.mk (n <<< (52 - n.log2)) false false >>> (n.log2 - 52), (n.log2 : Int) - 52) := by
  have hlog : (n <<< (52 - n.log2)).log2 = n.log2 + (52 - n.log2) := by
    rw [Nat.log2_eq_iff (by simp [Nat.shiftLeft_eq, hn]), Nat.shiftLeft_eq]
    constructor
    · rw [Nat.pow_add]
      exact Nat.mul_le_mul_right _ (Nat.log2_self_le hn)
    · calc n * 2 ^ (52 - n.log2) < 2 ^ (n.log2 + 1) * 2 ^ (52 - n.log2) :=
            Nat.mul_lt_mul_of_pos_right Nat.lt_log2_self (Nat.two_pow_pos _)
        _ = 2 ^ (n.log2 + (52 - n.log2) + 1) := by ring
  have hshift : (max ((n <<< (52 - n.log2)).log2 + 1 + -((52 - n.log2 : Nat) : Int) - 53) (-1074) -
      -((52 - n.log2 : Nat) : Int)).toNat = n.log2 - 52 := by
    rw [hlog]
    omega
  rw [shiftToTargetExponent, targetExponent_eq, totalExponent, shiftToExponent, hshift]
  refine Prod.ext rfl ?_
  show -((52 - n.log2 : Nat) : Int) + ((n.log2 - 52 : Nat) : Int) = n.log2 - 52
  omega

theorem shiftToTargetExponent_carry {n : Nat} (hn : n ≠ 0) :
    ∃ em, shiftToTargetExponent Format.binary64 (bits n) (n.log2 - 52) .exact = (em, (weight n : Int) - 52) ∧
      em.mantissa = significand n := by
  have hb := bits_bounds hn
  by_cases hc : bits n = 2 ^ 53
  · rw [significand, weight, if_pos hc, if_pos hc, hc]
    have hlog : (2 ^ 53 : Nat).log2 = 53 := Nat.log2_two_pow
    have hshift : (max (((2 ^ 53 : Nat).log2 : Int) + 1 + ((n.log2 : Int) - 52) - 53) (-1074) -
        ((n.log2 : Int) - 52)).toNat = 1 := by
      rw [hlog]
      omega
    rw [shiftToTargetExponent, targetExponent_eq, totalExponent, shiftToExponent, hshift]
    refine ⟨_, Prod.ext rfl ?_, rfl⟩
    show ((n.log2 : Int) - 52) + 1 = ((n.log2 + 1 : Nat) : Int) - 52
    omega
  · rw [significand, weight, if_neg hc, if_neg hc]
    have hlog : (bits n).log2 = 52 := (Nat.log2_eq_iff (by omega)).2 (by omega)
    have hshift : (max (((bits n).log2 : Int) + 1 + ((n.log2 : Int) - 52) - 53) (-1074) -
        ((n.log2 : Int) - 52)).toNat = 0 := by
      rw [hlog]
      omega
    rw [shiftToTargetExponent, targetExponent_eq, totalExponent, shiftToExponent, hshift]
    refine ⟨_, Prod.ext rfl ?_, rfl⟩
    show ((n.log2 : Int) - 52) + 0 = (n.log2 : Int) - 52
    omega

theorem round_positive {n : Nat} (hn : n ≠ 0) :
    ∃ h, UnpackedFloat.round Format.binary64 .positive n 0 =
      .finite .positive (significand n) (weight n - 52) h := by
  have hpos : 0 < significand n := by
    have := significand_bounds hn
    omega
  refine ⟨hpos, ?_⟩
  have hshift : (0 - max ((n.log2 : Int) + 1 + 0 - 53) (-1074)).toNat = 52 - n.log2 := by omega
  obtain ⟨em, hcarry, hem⟩ := shiftToTargetExponent_carry hn
  rw [UnpackedFloat.round, targetExponent_eq, totalExponent, decreaseExponent, hshift]
  dsimp only
  rw [Int.zero_sub, roundWithAccuracy, shiftToTargetExponent_bits hn]
  dsimp only
  rw [roundedMantissa_shiftRight, ← bits, hcarry]
  simp only [hem]
  rw [dif_neg (by omega)]

theorem weight_bounds {n : Nat} (hn : n ≠ 0) (h : n < 2 ^ 64) : weight n ≤ 64 := by
  have := (Nat.log2_lt hn).2 h
  unfold weight
  split <;> omega

theorem unpack_toFloat {n : UInt64} (hn : n.toNat ≠ 0) :
    ∃ h, n.toFloat.toModel.unpack = .finite .positive (significand n.toNat) (weight n.toNat - 52) h := by
  obtain ⟨h, hround⟩ := round_positive hn
  refine ⟨h, ?_⟩
  have hmodel : UnpackedFloat.ofUInt64 Format.binary64 n =
      .finite .positive (significand n.toNat) (weight n.toNat - 52) h := by
    have hgt : compare (n.toNat : Int) 0 = .gt := by
      rw [compare_gt_iff_gt]
      omega
    rw [UnpackedFloat.ofUInt64, UnpackedFloat.ofNat, UnpackedFloat.ofInt, UnpackedFloat.normalize, hgt]
    exact hround
  have hw := weight_bounds hn n.toNat_lt
  show UnpackedFloat.unpack _ (UnpackedFloat.pack _ (UnpackedFloat.ofUInt64 _ n)) = _
  rw [hmodel, unpack_pack_finite _ (significand_bounds hn) (by omega)]

theorem unpack_toFloat_zero {n : UInt64} (hn : n.toNat = 0) : n.toFloat.toModel.unpack = .zero .positive := by
  obtain rfl : n = 0 := UInt64.toNat_inj.1 hn
  exact unpack_packedZero

theorem unpack_neg_toFloat {n : UInt64} (hn : n.toNat ≠ 0) :
    ∃ h, (-n.toFloat).toModel.unpack = .finite .negative (significand n.toNat) (weight n.toNat - 52) h := by
  obtain ⟨h, hu⟩ := unpack_toFloat hn
  refine ⟨h, ?_⟩
  have hw := weight_bounds hn n.toNat_lt
  show UnpackedFloat.unpack _ (UnpackedFloat.pack _ n.toFloat.toModel.unpack.neg) = _
  rw [hu, UnpackedFloat.neg]
  exact unpack_pack_finite _ (significand_bounds hn) (by omega) h

end Stencil.Binary64
