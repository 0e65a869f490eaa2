import Mathlib
import Stasis.Number.Dyadic

/-!
# Integers of moderate size as doubles

Rounding raises an exponent by little more than the mantissa is long. So what is computed from
moderate exponents has a moderate exponent again, and does not become infinite.

* `IsWithin`: a bound on the exponent of a finite value.
* `isWithin_roundWithAccuracy`, `isWithin_unpack_pack`: rounding a value, and storing it.
* `isFinite_ofInt`: the double nearest to an integer of moderate size is finite.
* `isFinite_ofInt_integerPart`: so is the integer part of a double of moderate size.
-/

namespace Stasis.Number

open Float.Model Float.Model.UnpackedFloat

/-- Zero, or a finite value with an exponent within the bound. -/
def IsWithin (k : ℤ) : UnpackedFloat → Prop
  | .zero _ => True
  | .finite _ _ e _ => e ≤ k
  | _ => False

section Within

variable {k l : ℤ} {u : UnpackedFloat}

theorem IsWithin.zero_or_finite (h : IsWithin k u) :
    (∃ s, u = .zero s) ∨ ∃ s m e hm, u = .finite s m e hm ∧ e ≤ k := by
  cases u with
  | zero s => exact .inl ⟨s, rfl⟩
  | finite s m e hm => exact .inr ⟨s, m, e, hm, rfl, h⟩
  | infinity s => exact h.elim
  | notANumber => exact h.elim

theorem IsWithin.isFinite (h : IsWithin k u) : u.isFinite = true := by
  obtain ⟨s, rfl⟩ | ⟨s, m, e, hm, rfl, -⟩ := h.zero_or_finite <;> rfl

theorem IsWithin.mono (h : IsWithin k u) (hkl : k ≤ l) : IsWithin l u := by
  obtain ⟨s, rfl⟩ | ⟨s, m, e, hm, rfl, he⟩ := h.zero_or_finite
  · trivial
  · exact he.trans hkl

theorem IsWithin.neg (h : IsWithin k u) : IsWithin k u.neg := by
  obtain ⟨s, rfl⟩ | ⟨s, m, e, hm, rfl, he⟩ := h.zero_or_finite
  · trivial
  · exact he

end Within

/-! ## Rounding -/

section Rounding

variable {m n : ℕ} {e k : ℤ}

theorem mantissa_shiftRight_le (em : ExtendedMantissa) (n : ℕ) :
    (em >>> n).mantissa ≤ em.mantissa := by
  induction n with
  | zero => exact le_rfl
  | succ n ih => exact le_trans (Nat.div_le_self _ 2) ih

theorem roundedMantissa_le (em : ExtendedMantissa) : em.roundedMantissa ≤ em.mantissa + 1 := by
  obtain ⟨m, roundBit, stickyBit⟩ := em
  cases roundBit <;> cases stickyBit <;>
    simp only [ExtendedMantissa.roundedMantissa, ExtendedMantissa.accuracy,
      Accuracy.roundToNearestEven] <;> omega

theorem log2_le (hm : m < 2 ^ n) : m.log2 ≤ n := by
  by_cases h : m = 0
  · simp [h]
  · exact ((Nat.log2_lt h).mpr hm).le

/-- Cutting a mantissa down to its length raises the exponent by no more than that length. -/
theorem shiftToTargetExponent_le (hm : m < 2 ^ n) (he : max e (-1074) + n ≤ k) :
    (shiftToTargetExponent Format.binary64 m e .exact).2 ≤ k ∧
      (shiftToTargetExponent Format.binary64 m e .exact).1.mantissa ≤ m := by
  have hlog := log2_le hm
  refine ⟨?_, mantissa_shiftRight_le _ _⟩
  have htarget : Format.binary64.targetExponent (totalExponent m e) ≤ k := by
    simp only [Format.targetExponent, totalExponent, Format.mantissaBits, Format.minExponent]
    norm_num
    omega
  simp only [shiftToTargetExponent, shiftToExponent]
  omega

/-- **Rounding a value** raises its exponent by no more than twice the length of its mantissa. -/
theorem isWithin_roundWithAccuracy (s : Sign) (hm : m < 2 ^ n)
    (he : max e (-1074) + (2 * n + 1) ≤ k) :
    IsWithin k (roundWithAccuracy Format.binary64 s m e .exact) := by
  obtain ⟨hfirst, hmantissa⟩ :=
    shiftToTargetExponent_le (e := e) (k := k - n - 1) hm (by omega)
  unfold roundWithAccuracy
  generalize shiftToTargetExponent Format.binary64 m e .exact = first at hfirst hmantissa ⊢
  -- the mantissa may have become one bit longer, and is cut once more
  have hrounded : first.1.roundedMantissa < 2 ^ (n + 1) := by
    have hle := roundedMantissa_le first.1
    have hpow : 2 ^ (n + 1) = 2 ^ n * 2 := pow_succ 2 n
    omega
  have hsecond := (shiftToTargetExponent_le (e := first.2) (k := k) hrounded (by omega)).1
  dsimp only
  split
  · trivial
  · exact hsecond

theorem isWithin_round (s : Sign) (hm : m < 2 ^ n) :
    IsWithin (2 * n + 105) (UnpackedFloat.round Format.binary64 s m 0) := by
  have hshift : (0 - Format.binary64.targetExponent (totalExponent m 0)).toNat ≤ 52 := by
    simp only [Format.targetExponent, totalExponent, Format.mantissaBits, Format.minExponent]
    norm_num
    omega
  unfold UnpackedFloat.round decreaseExponent
  dsimp only
  generalize (0 - Format.binary64.targetExponent (totalExponent m 0)).toNat = shift at hshift
  refine isWithin_roundWithAccuracy (n := n + 52) s ?_ (by push_cast; omega)
  calc m <<< shift = m * 2 ^ shift := Nat.shiftLeft_eq m shift
    _ < 2 ^ n * 2 ^ 52 :=
      Nat.mul_lt_mul_of_lt_of_le hm (Nat.pow_le_pow_right two_pos hshift) (by positivity)
    _ = 2 ^ (n + 52) := (pow_add 2 n 52).symm

theorem isWithin_normalize (hm : m < 2 ^ n) (s : Sign) :
    IsWithin (2 * n + 105) (UnpackedFloat.normalize Format.binary64 (m : ℤ) 0 s) := by
  unfold UnpackedFloat.normalize
  split
  · exact isWithin_round _ (lt_of_le_of_lt (by omega) hm)
  · trivial
  · exact isWithin_round _ (lt_of_le_of_lt (by omega) hm)

end Rounding

/-! ## Storing -/

section Storing

variable {k e : ℤ} {m : ℕ} {s : Sign} {u : UnpackedFloat} {b : BitVec 64}

/-- The exponent of stored bits, as it is stored. -/
def scale (b : BitVec 64) : ℕ := (@unpackExponent Format.binary64 b).toNat

theorem unpackExponent_eq_iff (c : BitVec 11) :
    @unpackExponent Format.binary64 b = c ↔ scale b = c.toNat :=
  BitVec.toNat_inj.symm

/-- A full exponent is kept for what is not finite. -/
theorem isFinite_unpack :
    (UnpackedFloat.unpack Format.binary64 b).isFinite = true ↔ scale b ≠ 2047 := by
  rw [Ne, show scale b = 2047 ↔ _ from (unpackExponent_eq_iff (-1#11)).symm]
  unfold UnpackedFloat.unpack
  dsimp only
  split
  case isTrue hfull =>
    split <;> exact iff_of_false Bool.false_ne_true (not_not.mpr hfull)
  case isFalse hfull =>
    split
    · split <;> exact iff_of_true rfl hfull
    · exact iff_of_true rfl hfull

/-- What other exponents stand for. Only the smallest one allows for short mantissas. -/
theorem unpack_eq_finite {hm : 0 < m}
    (h : UnpackedFloat.unpack Format.binary64 b = .finite s m e hm) :
    e = max (scale b : ℤ) 1 - 1075 ∧ m < 2 ^ 53 ∧ (0 < scale b → 2 ^ 52 ≤ m) := by
  have hmantissa : (@unpackMantissa Format.binary64 b).toNat < 2 ^ 52 := BitVec.isLt _
  unfold UnpackedFloat.unpack at h
  dsimp only at h
  split at h
  · split at h <;> cases h
  · split at h
    case isTrue hzero =>
      have hscale : scale b = 0 := (unpackExponent_eq_iff _).mp hzero
      split at h
      · cases h
      · cases h
        refine ⟨?_, by omega, by omega⟩
        rw [hscale, hzero]
        rfl
    case isFalse hzero =>
      have hscale : scale b ≠ 0 := fun hb => hzero ((unpackExponent_eq_iff _).mpr hb)
      have hone : (1#1 ++ @unpackMantissa Format.binary64 b).toNat =
          2 ^ 52 + (@unpackMantissa Format.binary64 b).toNat := by
        rw [BitVec.toNat_append, ← Nat.shiftLeft_add_eq_or_of_lt hmantissa]
        rfl
      cases h
      refine ⟨?_, by omega, by omega⟩
      change (scale b : ℤ) - (1023 + 52) = _
      omega

theorem scale_of_zero (h : UnpackedFloat.unpack Format.binary64 b = .zero s) : scale b = 0 := by
  unfold UnpackedFloat.unpack at h
  dsimp only at h
  split at h
  · split at h <;> cases h
  · split at h
    case isTrue hzero => exact (unpackExponent_eq_iff _).mp hzero
    case isFalse => cases h

theorem isWithin_unpack (hscale : scale b < 2047) (hk : max (scale b : ℤ) 1 ≤ k + 1075) :
    IsWithin k (UnpackedFloat.unpack Format.binary64 b) := by
  have hfinite := isFinite_unpack.mpr hscale.ne
  cases hu : UnpackedFloat.unpack Format.binary64 b with
  | zero s => trivial
  | finite s m e hm =>
    have he := (unpack_eq_finite hu).1
    exact (by omega : e ≤ k)
  | infinity s => rw [hu] at hfinite; cases hfinite
  | notANumber => rw [hu] at hfinite; cases hfinite

theorem pack_finite (s : Sign) (hm : 0 < m) (he : e ≤ 971) :
    UnpackedFloat.pack Format.binary64 (.finite s m e hm) =
      if m.log2 = 52 then
        packComponents Format.binary64 s (BitVec.ofNat 11 (e + 1075).toNat) (BitVec.ofNat 52 m)
      else packComponents Format.binary64 s 0#11 (BitVec.ofNat 52 m) := by
  have hbias : (e + (Format.binary64.exponentBias : ℕ) + (52 : ℕ)).toNat = (e + 1075).toNat := by
    simp only [Format.exponentBias]
    norm_num
    omega
  have hlog : m.log2 + 1 = Format.binary64.mantissaBits ↔ m.log2 = 52 :=
    ⟨fun h => Nat.succ_injective h, fun h => congrArg Nat.succ h⟩
  unfold UnpackedFloat.pack
  dsimp only
  rw [hbias, if_neg (by norm_num; omega)]
  simp only [hlog]

/-- The exponent that a finite value is stored with. -/
theorem scale_pack (s : Sign) (hm : 0 < m) (he : e ≤ 971) :
    scale (UnpackedFloat.pack Format.binary64 (.finite s m e hm)) =
      if m.log2 = 52 then (e + 1075).toNat else 0 := by
  rw [pack_finite s hm he]
  split
  · exact (congrArg BitVec.toNat unpackExponent_packComponents).trans
      (Nat.mod_eq_of_lt (by omega))
  · exact congrArg BitVec.toNat unpackExponent_packComponents

@[simp]
theorem unpackSign_packComponents {f : Format} {exponent : BitVec f.exponentBits}
    {mantissa : BitVec f.mantissaBitsWithoutImplicit} :
    unpackSign (packComponents f s exponent mantissa) = s.toBitVec := by
  ext i hi
  obtain rfl : i = 0 := by omega
  simp [unpackSign, packComponents, BitVec.getLsbD_append, BitVec.getElem_append]

/-- A value whose mantissa has its full length is stored as it is. -/
theorem unpack_pack_normal (hm : 0 < m) (hlog : m.log2 = 52) (hlow : -1074 ≤ e) (hhigh : e ≤ 971) :
    UnpackedFloat.unpack Format.binary64
      (UnpackedFloat.pack Format.binary64 (.finite s m e hm)) = .finite s m e hm := by
  rw [pack_finite s hm (by omega), if_pos hlog]
  unfold UnpackedFloat.unpack
  simp only [unpackExponent_packComponents, unpackMantissa_packComponents,
    unpackSign_packComponents]
  have hexponent : (BitVec.ofNat 11 (e + 1075).toNat).toNat = (e + 1075).toNat :=
    Nat.mod_eq_of_lt (by omega)
  have hmantissa : (1#1 ++ BitVec.ofNat 52 m).toNat = m := by
    obtain ⟨hlow, hhigh⟩ := (Nat.log2_eq_iff hm.ne').mp hlog
    rw [BitVec.toNat_append, ← Nat.shiftLeft_add_eq_or_of_lt (BitVec.isLt _), BitVec.toNat_ofNat]
    change 2 ^ 52 + m % 2 ^ 52 = m
    omega
  have hne : ∀ c : BitVec 11, c.toNat ≠ (e + 1075).toNat → BitVec.ofNat 11 (e + 1075).toNat ≠ c :=
    fun c hc h => hc (by rw [← h, hexponent])
  rw [if_neg (hne (-1#11) ?_), if_neg (hne 0#11 ?_)]
  · congr 1
    · cases s <;> rfl
    · change ((BitVec.ofNat 11 (e + 1075).toNat).toNat : ℤ) - (1023 + 52) = e
      omega
  · change 0 ≠ (e + 1075).toNat
    omega
  · change 2047 ≠ (e + 1075).toNat
    omega

/-- Storing a value keeps its exponent within a bound that is not too low. -/
theorem isWithin_unpack_pack (h : IsWithin k u) (hlow : -1074 ≤ k) (hhigh : k ≤ 971) :
    IsWithin k (Float.Model.pack u).unpack := by
  have hscale : (scale (UnpackedFloat.pack Format.binary64 u) : ℤ) ≤ k + 1075 := by
    obtain ⟨s, rfl⟩ | ⟨s, m, e, hm, rfl, he⟩ := h.zero_or_finite
    · have hzero : scale (UnpackedFloat.pack Format.binary64 (.zero s)) = 0 := by
        unfold UnpackedFloat.pack packedZero scale
        rw [unpackExponent_packComponents]
        rfl
      omega
    · rw [scale_pack s hm (he.trans hhigh)]
      split <;> omega
  have hstored : IsWithin k (UnpackedFloat.unpack Format.binary64
      (UnpackedFloat.pack Format.binary64 u)) := isWithin_unpack (by omega) (by omega)
  exact hstored

end Storing

/-! ## Doubles -/

section Doubles

variable {k l : ℤ} {x y : Float} {n : ℕ}

theorem isWithin_mul (hx : IsWithin k x.toModel.unpack) (hy : IsWithin l y.toModel.unpack)
    (hlow : -1074 ≤ k + l) (hhigh : k + l ≤ 700) :
    IsWithin (k + l + 213) (x * y).toModel.unpack := by
  have hmul : IsWithin (k + l + 213)
      (UnpackedFloat.mul Format.binary64 x.toModel.unpack y.toModel.unpack) := by
    obtain ⟨s, hu⟩ | ⟨s, m, e, hm, hu, he⟩ := hx.zero_or_finite <;>
      obtain ⟨t, hv⟩ | ⟨t, m', e', hm', hv, he'⟩ := hy.zero_or_finite <;> rw [hu, hv]
    case inr.inr =>
      have hlt : m * m' < 2 ^ 106 := calc
        m * m' < 2 ^ 53 * 2 ^ 53 :=
          Nat.mul_lt_mul'' (unpack_eq_finite hu).2.1 (unpack_eq_finite hv).2.1
        _ = 2 ^ 106 := (pow_add 2 53 53).symm
      exact isWithin_roundWithAccuracy (s * t) hlt (by omega)
    all_goals trivial
  exact isWithin_unpack_pack hmul (by omega) (by omega)

theorem isWithin_toFloat (n : UInt64) : IsWithin 233 n.toFloat.toModel.unpack :=
  isWithin_unpack_pack (isWithin_normalize n.toNat_lt .positive) (by omega) (by omega)

theorem isWithin_one : IsWithin 0 (Float.ofBits 0x3FF0000000000000).toModel.unpack :=
  isWithin_unpack (by decide) (by decide)

/-- A natural number of moderate size, without a decimal exponent. -/
theorem isWithin_decimal (hn : n < 2 ^ 64) :
    IsWithin 500 (UnpackedFloat.ofScientific Format.binary64 n 0) := by
  unfold UnpackedFloat.ofScientific
  split
  · trivial
  · rw [if_neg (show ¬(0 : ℤ) > 2 ^ 11 by decide)]
    split
    · trivial
    · rw [if_pos (show (0 : ℤ) ≤ 0 from le_rfl)]
      have hlt : n <<< Format.binary64.mantissaBits * 10 ^ Int.toNat 0 < 2 ^ 117 := by
        simp only [Nat.shiftLeft_eq, Format.mantissaBits, Int.toNat_zero, pow_zero]
        omega
      simp only [UnpackedFloat.mul]
      generalize n <<< Format.binary64.mantissaBits * 10 ^ Int.toNat 0 = m at hlt ⊢
      exact isWithin_roundWithAccuracy _ hlt (by decide)

/-- A natural number of moderate size as a double. -/
theorem isWithin_ofScientific (hn : n < 2 ^ 64) :
    IsWithin 500 (Float.ofScientific n false 0).toModel.unpack := by
  unfold Float.ofScientific
  split
  · exact (isWithin_mul (isWithin_toFloat n.toUInt64) isWithin_one (by omega) (by omega)).mono
      (by omega)
  · exact isWithin_unpack_pack (isWithin_decimal hn) (by omega) (by omega)

/-- **An integer of moderate size is finite as a double.** -/
theorem isFinite_ofInt {n : ℤ} (hn : n.natAbs < 2 ^ 64) : (ofInt n).isFinite = true := by
  have h := isWithin_ofScientific hn
  unfold ofInt
  dsimp only
  split
  · exact (isWithin_unpack_pack h.neg (by omega) (by omega)).isFinite
  · exact h.isFinite

theorem unpack_limit :
    (9007199254740992 : Float).toModel.unpack = .finite .positive (2 ^ 52) 1 (by decide) := by
  have hbits : (9007199254740992 : Float).toBits = 0x4340000000000000 := by decide +kernel
  change UnpackedFloat.unpack Format.binary64 (9007199254740992 : Float).toBits.toBitVec = _
  rw [hbits]
  rfl

/-- A double below the limit is stored with a moderate exponent. -/
theorem scale_toBits_le (hx : x.isFinite = true) (hlt : x.abs < 9007199254740992) :
    scale x.toBits.toBitVec ≤ 1076 := by
  by_contra hscale
  have hfull : scale x.toBits.toBitVec ≠ 2047 := isFinite_unpack.mp hx
  have hlt2048 : scale x.toBits.toBitVec < 2048 := BitVec.isLt _
  have hwithin : IsWithin 971 (UnpackedFloat.unpack Format.binary64 x.toBits.toBitVec) :=
    isWithin_unpack (by omega) (by omega)
  obtain ⟨s, hu⟩ | ⟨s, m, e, hm, hu, hhigh⟩ := hwithin.zero_or_finite
  · exact hscale (by rw [scale_of_zero hu]; omega)
  · -- the mantissa has its full length, so `abs` keeps it, and the exponent alone decides
    obtain ⟨he, hlength, hnormal⟩ := unpack_eq_finite hu
    have hlog : m.log2 = 52 := (Nat.log2_eq_iff hm.ne').mpr ⟨hnormal (by omega), hlength⟩
    have habs : x.abs.toModel.unpack = .finite .positive m e hm := by
      change UnpackedFloat.unpack Format.binary64 (UnpackedFloat.pack Format.binary64
        (UnpackedFloat.unpack Format.binary64 x.toBits.toBitVec).abs) = _
      rw [hu]
      exact unpack_pack_normal hm hlog (by omega) hhigh
    have hcompare : x.abs.toModel.unpack.lt (9007199254740992 : Float).toModel.unpack = true :=
      of_decide_eq_true hlt
    have hgt : compare e 1 = .gt := compare_gt_iff_gt.mpr (by omega)
    rw [habs, unpack_limit] at hcompare
    simp [UnpackedFloat.lt, UnpackedFloat.compare, hgt] at hcompare

theorem toNat_scale (b : UInt64) : ((b >>> 52) &&& 0x7FF).toNat = scale b.toBitVec := by
  have hmask : (0x7FF : ℕ) = 2 ^ 11 - 1 := rfl
  have hbits : ((b >>> 52) &&& 0x7FF).toNat = b.toNat >>> 52 &&& 0x7FF := rfl
  rw [hbits, hmask, Nat.and_two_pow_sub_one_eq_mod]
  unfold scale unpackExponent
  rw [BitVec.toNat_cast, BitVec.extractLsb_toNat]
  rfl

/-- The integer part of a double that is stored with a moderate exponent. -/
theorem natAbs_integerPart_lt (hscale : scale x.toBits.toBitVec ≤ 1076) :
    (integerPart x).natAbs < 2 ^ 64 := by
  have hfloor : (integerPart x).natAbs = (Dyadic.ofFloat x).floor := by
    unfold integerPart
    dsimp only
    split
    · rw [Int.natAbs_neg, Int.natAbs_natCast]
    · exact Int.natAbs_natCast _
  have hfraction : (x.toBits &&& 0xFFFFFFFFFFFFF).toNat ≤ 0xFFFFFFFFFFFFF := Nat.and_le_right
  have hlength : (Dyadic.ofFloat x).mantissa < 2 ^ 53 ∧ (Dyadic.ofFloat x).exponent ≤ 1 := by
    unfold Dyadic.ofFloat
    dsimp only
    rw [toNat_scale]
    have hone : 1 <<< 52 = 2 ^ 52 := rfl
    split <;> dsimp only <;> omega
  rw [hfloor]
  unfold Dyadic.floor
  split
  · have hshift : (Dyadic.ofFloat x).exponent.toNat ≤ 1 := by omega
    calc (Dyadic.ofFloat x).mantissa <<< (Dyadic.ofFloat x).exponent.toNat
        = (Dyadic.ofFloat x).mantissa * 2 ^ (Dyadic.ofFloat x).exponent.toNat :=
          Nat.shiftLeft_eq _ _
      _ ≤ (Dyadic.ofFloat x).mantissa * 2 ^ 1 :=
          Nat.mul_le_mul_left _ (Nat.pow_le_pow_right two_pos hshift)
      _ < 2 ^ 64 := by omega
  · calc (Dyadic.ofFloat x).mantissa >>> (-(Dyadic.ofFloat x).exponent).toNat
        ≤ (Dyadic.ofFloat x).mantissa := Nat.shiftRight_le _ _
      _ < 2 ^ 64 := by omega

/-- **The integer part of a double of moderate size** is finite as a double. -/
theorem isFinite_ofInt_integerPart (hx : x.isFinite = true) (hlt : x.abs < 9007199254740992) :
    (ofInt (integerPart x)).isFinite = true :=
  isFinite_ofInt (natAbs_integerPart_lt (scale_toBits_le hx hlt))

end Doubles

end Stasis.Number
