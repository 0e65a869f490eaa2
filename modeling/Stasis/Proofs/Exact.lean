import Mathlib
import Stasis.Heap.Object
import Stasis.Proofs.Moderate

/-!
# Integers that doubles hold exactly

A natural number below 2⁵³ fits into the mantissa of a double. Making a double of it moves the mantissa
up to its full length, and nothing is rounded; its integer part is the number again.

* `roundWithAccuracy_exact`: a mantissa with zeros at its end is cut to its full length.
* `unpack_ofInt`: the parts of the double.
* `decoded_of_unpack`: `Dyadic.ofFloat` reads the parts that the model of doubles has.
* `integerPart_ofInt`, `toLength_ofInt`: the way back.
-/

namespace Stasis.Number

open Float.Model Float.Model.UnpackedFloat

/-! ## Rounding that loses nothing -/

theorem shiftRight_exact (j : ℕ) : ∀ m : ℕ,
    (⟨m * 2 ^ j, false, false⟩ : ExtendedMantissa) >>> j = ⟨m, false, false⟩ := by
  induction j with
  | zero => exact fun m => congrArg (ExtendedMantissa.mk · false false) (Nat.mul_one m)
  | succ j ih =>
    intro m
    have hdouble : m * 2 ^ (j + 1) = m * 2 * 2 ^ j := by ring
    show ((⟨m * 2 ^ (j + 1), false, false⟩ : ExtendedMantissa) >>> j).shiftRightOne = _
    rw [hdouble, ih (m * 2)]
    simp [ExtendedMantissa.shiftRightOne]

section Rounding

variable {m j : ℕ} {e : ℤ}

theorem log2_mul_two_pow (hlog : m.log2 = 52) : (m * 2 ^ j).log2 = 52 + j := by
  have hm : m ≠ 0 := by
    rintro rfl
    cases hlog
  obtain ⟨hlow, hhigh⟩ := (Nat.log2_eq_iff hm).mp hlog
  refine (Nat.log2_eq_iff (Nat.mul_ne_zero hm (by positivity))).mpr ⟨?_, ?_⟩
  · rw [pow_add]
    exact Nat.mul_le_mul_right _ hlow
  · rw [show 52 + j + 1 = 52 + 1 + j by omega, pow_add]
    exact Nat.mul_lt_mul_of_pos_right hhigh (by positivity)

theorem shiftToTargetExponent_exact (hlog : m.log2 = 52) (hlow : -1074 ≤ e + j) :
    shiftToTargetExponent Format.binary64 (m * 2 ^ j) e .exact = (⟨m, false, false⟩, e + j) := by
  have htarget : Format.binary64.targetExponent (totalExponent (m * 2 ^ j) e) = e + j := by
    simp only [Format.targetExponent, totalExponent, Format.mantissaBits, Format.minExponent,
      log2_mul_two_pow hlog]
    norm_num
    omega
  have hshift : (e + j - e).toNat = j := by omega
  unfold shiftToTargetExponent shiftToExponent
  simp only [htarget, hshift, ExtendedMantissa.ofMantissaAndAccuracy, shiftRight_exact]

/-- **A mantissa with zeros at its end** is cut to its full length. -/
theorem roundWithAccuracy_exact (s : Sign) (hm : 0 < m) (hlog : m.log2 = 52) (hlow : -1074 ≤ e + j) :
    roundWithAccuracy Format.binary64 s (m * 2 ^ j) e .exact = .finite s m (e + j) hm := by
  have hagain := shiftToTargetExponent_exact (j := 0) (e := e + j) hlog (by push_cast; omega)
  rw [pow_zero, mul_one, Nat.cast_zero, add_zero] at hagain
  unfold roundWithAccuracy
  rw [shiftToTargetExponent_exact hlog hlow]
  simp only [ExtendedMantissa.roundedMantissa, ExtendedMantissa.accuracy,
    Accuracy.roundToNearestEven, hagain, hm.ne', dif_neg, not_false_eq_true]

end Rounding

/-! ## The parts of an integer -/

section Parts

variable {n : ℕ}

/-- How far the number is moved up. -/
def lift (n : ℕ) : ℕ := 52 - n.log2

theorem log2_lifted (h0 : 0 < n) (hn : n < 2 ^ 53) : (n * 2 ^ lift n).log2 = 52 := by
  have hlog : n.log2 < 53 := (Nat.log2_lt h0.ne').mpr hn
  obtain ⟨hlow, hhigh⟩ := (Nat.log2_eq_iff h0.ne').mp (rfl : n.log2 = n.log2)
  refine (Nat.log2_eq_iff (by positivity)).mpr ⟨?_, ?_⟩
  · rw [show 52 = n.log2 + lift n by unfold lift; omega, pow_add]
    exact Nat.mul_le_mul_right _ hlow
  · rw [show 52 + 1 = n.log2 + 1 + lift n by unfold lift; omega, pow_add]
    exact Nat.mul_lt_mul_of_pos_right hhigh (by positivity)

theorem lifted_pos (h0 : 0 < n) : 0 < n * 2 ^ lift n := by positivity

theorem normalize_natCast (h0 : 0 < n) (hn : n < 2 ^ 53) (s : Sign) :
    UnpackedFloat.normalize Format.binary64 (n : ℤ) 0 s
      = .finite .positive (n * 2 ^ lift n) (-(lift n : ℤ)) (lifted_pos h0) := by
  have hlog : n.log2 < 53 := (Nat.log2_lt h0.ne').mpr hn
  have hgt : compare (n : ℤ) 0 = .gt := compare_gt_iff_gt.mpr (by omega)
  have htarget : Format.binary64.targetExponent (totalExponent n 0) = -(lift n : ℤ) := by
    simp only [Format.targetExponent, totalExponent, Format.mantissaBits, Format.minExponent, lift]
    norm_num
    omega
  have hround := roundWithAccuracy_exact (j := 0) (e := -(lift n : ℤ)) .positive (lifted_pos h0)
    (log2_lifted h0 hn) (by unfold lift; omega)
  rw [pow_zero, mul_one, Nat.cast_zero, add_zero] at hround
  unfold UnpackedFloat.normalize
  simp only [hgt, Int.toNat_natCast, UnpackedFloat.round, decreaseExponent, htarget, zero_sub, neg_neg,
    Nat.shiftLeft_eq]
  exact hround

theorem unpack_toFloat (h0 : 0 < n) (hn : n < 2 ^ 53) :
    n.toUInt64.toFloat.toModel.unpack
      = .finite .positive (n * 2 ^ lift n) (-(lift n : ℤ)) (lifted_pos h0) := by
  have hlog : n.log2 < 53 := (Nat.log2_lt h0.ne').mpr hn
  have hkept : n.toUInt64.toNat = n := UInt64.toNat_ofNat_of_lt (hn.trans (by decide))
  show UnpackedFloat.unpack Format.binary64 (UnpackedFloat.pack Format.binary64
    (UnpackedFloat.normalize Format.binary64 (n.toUInt64.toNat : ℤ) 0 .positive)) = _
  rw [hkept, normalize_natCast h0 hn]
  exact unpack_pack_normal (lifted_pos h0) (log2_lifted h0 hn) (by unfold lift; omega)
    (by unfold lift; omega)

theorem unpack_one : (Float.ofBits 0x3FF0000000000000).toModel.unpack
    = .finite .positive (2 ^ 52) (-52) (by decide) := by rfl

/-- **The parts of an integer as a double.** -/
theorem unpack_ofInt (h0 : 0 < n) (hn : n < 2 ^ 53) :
    (ofInt n).toModel.unpack
      = .finite .positive (n * 2 ^ lift n) (-(lift n : ℤ)) (lifted_pos h0) := by
  have hfast : ofInt n = n.toUInt64.toFloat * Float.ofBits 0x3FF0000000000000 := by
    unfold ofInt
    rw [if_neg (by omega), Int.natAbs_natCast, Float.ofScientific, dif_pos ⟨hn, by decide⟩]
    rfl
  have hround := roundWithAccuracy_exact (j := 52) (e := -(lift n : ℤ) + -52) .positive (lifted_pos h0)
    (log2_lifted h0 hn) (by unfold lift; omega)
  rw [show -(lift n : ℤ) + -52 + (52 : ℕ) = -(lift n : ℤ) by push_cast; omega] at hround
  rw [hfast]
  show UnpackedFloat.unpack Format.binary64 (UnpackedFloat.pack Format.binary64
    (UnpackedFloat.mul Format.binary64 n.toUInt64.toFloat.toModel.unpack
      (Float.ofBits 0x3FF0000000000000).toModel.unpack)) = _
  rw [unpack_toFloat h0 hn, unpack_one]
  show UnpackedFloat.unpack Format.binary64 (UnpackedFloat.pack Format.binary64
    (roundWithAccuracy Format.binary64 .positive (n * 2 ^ lift n * 2 ^ 52) (-(lift n : ℤ) + -52)
      .exact)) = _
  rw [hround]
  exact unpack_pack_normal (lifted_pos h0) (log2_lifted h0 hn) (by unfold lift; omega)
    (by unfold lift; omega)

end Parts

/-! ## The way back -/

section Decoding

variable {x : Float} {s : Sign} {m : ℕ} {e : ℤ} {hm : 0 < m}

theorem toNat_fraction (b : UInt64) :
    (b &&& 0xFFFFFFFFFFFFF).toNat = (@unpackMantissa Format.binary64 b.toBitVec).toNat := by
  have hmask : (0xFFFFFFFFFFFFF : ℕ) = 2 ^ 52 - 1 := rfl
  have hbits : (b &&& 0xFFFFFFFFFFFFF).toNat = b.toNat &&& 0xFFFFFFFFFFFFF := rfl
  rw [hbits, hmask, Nat.and_two_pow_sub_one_eq_mod]
  unfold unpackMantissa
  rw [BitVec.toNat_cast, BitVec.extractLsb_toNat]
  rfl

theorem isNegative_eq (x : Float) :
    isNegative x = (@unpackSign Format.binary64 x.toBits.toBitVec != 0#1) := by
  have hsign : (x.toBits >>> 63).toNat = (@unpackSign Format.binary64 x.toBits.toBitVec).toNat := by
    have hbits : (x.toBits >>> 63).toNat = x.toBits.toNat >>> 63 := rfl
    have hlt : x.toBits.toNat >>> 63 < 2 ^ 1 := by
      rw [Nat.shiftRight_eq_div_pow]
      exact Nat.div_lt_of_lt_mul x.toBits.toNat_lt
    unfold unpackSign
    rw [hbits, BitVec.toNat_cast, BitVec.extractLsb_toNat]
    exact (Nat.mod_eq_of_lt hlt).symm
  generalize hb : @unpackSign Format.binary64 x.toBits.toBitVec = b at hsign
  unfold isNegative
  have hlt : b.toNat < 2 := b.isLt
  rw [Bool.eq_iff_iff, beq_iff_eq, bne_iff_ne, ← UInt64.toNat_inj, hsign, ne_eq, ← BitVec.toNat_inj]
  show b.toNat = 1 ↔ ¬ b.toNat = 0
  omega

/-- **A double is decoded** into the parts that it has in the model of doubles. -/
theorem decoded_of_unpack (h : x.toModel.unpack = .finite s m e hm) :
    (Dyadic.ofFloat x).mantissa = m ∧ (Dyadic.ofFloat x).exponent = e ∧
      isNegative x = (s == .negative) := by
  change UnpackedFloat.unpack Format.binary64 x.toBits.toBitVec = _ at h
  have hmantissa : (@unpackMantissa Format.binary64 x.toBits.toBitVec).toNat < 2 ^ 52 :=
    BitVec.isLt _
  have hsign : ∀ b : BitVec 1, (b != 0#1) = (Sign.ofBitVec b == .negative) := by decide
  rw [isNegative_eq, hsign]
  unfold Dyadic.ofFloat
  dsimp only
  rw [toNat_scale, toNat_fraction]
  unfold UnpackedFloat.unpack at h
  dsimp only at h
  split at h
  · split at h <;> cases h
  · split at h
    case isTrue hzero =>
      have hscale : scale x.toBits.toBitVec = 0 := (unpackExponent_eq_iff _).mp hzero
      rw [if_pos hscale]
      split at h
      · cases h
      · cases h
        refine ⟨rfl, ?_, rfl⟩
        rw [hzero]
        rfl
    case isFalse hzero =>
      have hscale : scale x.toBits.toBitVec ≠ 0 := fun hb => hzero ((unpackExponent_eq_iff _).mpr hb)
      rw [if_neg hscale]
      have hone : (1#1 ++ @unpackMantissa Format.binary64 x.toBits.toBitVec).toNat =
          2 ^ 52 + (@unpackMantissa Format.binary64 x.toBits.toBitVec).toNat := by
        rw [BitVec.toNat_append, ← Nat.shiftLeft_add_eq_or_of_lt hmantissa]
        rfl
      cases h
      refine ⟨?_, rfl, rfl⟩
      rw [hone]
      rfl

/-- A mantissa that was moved up is moved down again. -/
theorem floor_of_unpack {n : ℕ} {hn : 0 < n * 2 ^ lift n}
    (h : x.toModel.unpack = .finite s (n * 2 ^ lift n) (-(lift n : ℤ)) hn) :
    (Dyadic.ofFloat x).floor = n := by
  obtain ⟨hmantissa, hexponent, -⟩ := decoded_of_unpack h
  unfold Dyadic.floor
  rw [hmantissa, hexponent]
  split
  · next hle =>
    have hlift : lift n = 0 := by omega
    rw [hlift]
    exact Nat.mul_one n
  · rw [neg_neg, Int.toNat_natCast, Nat.shiftRight_eq_div_pow, Nat.mul_div_cancel _ (by positivity)]

/-- **The integer part of an integer** is the integer. -/
theorem integerPart_ofInt {n : ℕ} (hn : n < 2 ^ 53) : integerPart (ofInt n) = n := by
  rcases Nat.eq_zero_or_pos n with rfl | h0
  · decide +kernel
  · have hunpack := unpack_ofInt h0 hn
    have hpositive : isNegative (ofInt n) = false := (decoded_of_unpack hunpack).2.2
    unfold integerPart
    rw [hpositive, floor_of_unpack hunpack]
    rfl

end Decoding

end Stasis.Number

namespace Stasis

theorem Number.ordinary_of_isFinite {x : Float} (h : x.isFinite = true) :
    x.isNaN = false ∧ x.isInf = false := by
  change x.toModel.unpack.isFinite = true at h
  show x.toModel.unpack.isNaN = false ∧ x.toModel.unpack.isInf = false
  cases hu : x.toModel.unpack <;> rw [hu] at h <;> first | exact ⟨rfl, rfl⟩ | cases h

/-- An integer equals itself as a double. -/
theorem Number.ofInt_beq_self {n : ℕ} (hn : n < 2 ^ 53) :
    (Number.ofInt n == Number.ofInt n) = true := by
  rcases Nat.eq_zero_or_pos n with rfl | h0
  · decide +kernel
  · show (Number.ofInt n).toModel.unpack.beq (Number.ofInt n).toModel.unpack = true
    rw [Number.unpack_ofInt h0 hn]
    simp [Float.Model.UnpackedFloat.beq, Float.Model.UnpackedFloat.compare]

/-- **An integer below the limit of lengths** is its own length. -/
theorem Object.toLength_ofInt {n : ℕ} (hn : n ≤ 0xFFFFFFFF) :
    Object.toLength (Number.ofInt n) = n := by
  have hpart : Number.integerPart (Number.ofInt n) = n := Number.integerPart_ofInt (by omega)
  obtain ⟨hnan, hinf⟩ := Number.ordinary_of_isFinite (x := Number.ofInt n)
    (Number.isFinite_ofInt (by omega))
  unfold Object.toLength Number.truncate
  rw [hnan, hinf, hpart]
  show (max 0 (min 0xFFFFFFFF (n : ℤ))).toNat = n
  omega

theorem Object.toLength_le (x : Float) : Object.toLength x ≤ 0xFFFFFFFF := by
  unfold Object.toLength Number.truncate
  split
  · decide
  · split
    · split <;> decide
    · omega

end Stasis
