import Mathlib
import Stasis.Envelope.Payload
import Stasis.Proofs.Exact
import Stasis.Proofs.Keys
import Stasis.Proofs.Printed
import Stasis.Realm.Change

/-!
# Whole numbers on their way through a script

An integer below 2⁵³ in magnitude becomes a double that scripts hold, and is an integer again when it
is written; an index becomes a key, and is found under it.

* `jsonOfNumber_ofInt`: an integer is written as what it was.
* `elementCount_ofInt`: a length is counted as what it was.
* `Key.arrayIndex?_ofIndex`: the key of an index denotes the index.
-/

namespace Stasis

namespace Number

open Float.Model Float.Model.UnpackedFloat

variable {n : ℤ}

/-- An integer is held exactly, with its sign. -/
theorem unpack_ofInt_signed (h0 : n ≠ 0) (hn : n.natAbs < 2 ^ 53) : ∃ s hm,
    (ofInt n).toModel.unpack = .finite s (n.natAbs * 2 ^ lift n.natAbs) (-(lift n.natAbs : ℤ)) hm ∧
      (s == .negative) = decide (n < 0) := by
  have hpos : 0 < n.natAbs := Int.natAbs_pos.mpr h0
  have habs := unpack_ofInt hpos hn
  by_cases hneg : n < 0
  · have hof : ofInt n = -ofInt n.natAbs := by
      unfold ofInt
      rw [if_pos hneg, if_neg (by omega), Int.natAbs_natCast]
    refine ⟨.negative, lifted_pos hpos, ?_, by simp [hneg]⟩
    have hlift : lift n.natAbs ≤ 52 := Nat.sub_le _ _
    have hstored := unpack_pack_normal (s := .negative) (lifted_pos hpos) (log2_lifted hpos hn)
      (e := -(lift n.natAbs : ℤ)) (by omega) (by omega)
    rw [hof]
    show UnpackedFloat.unpack Format.binary64 (UnpackedFloat.pack Format.binary64
      (ofInt n.natAbs).toModel.unpack.neg) = _
    rw [habs]
    exact hstored
  · have hof : ofInt n = ofInt n.natAbs := by
      rw [Int.natAbs_of_nonneg (by omega)]
    rw [hof]
    exact ⟨.positive, _, habs, by simp [hneg]⟩

theorem isWhole_ofInt (hn : n.natAbs < 2 ^ 53) : isWhole (ofInt n) = true := by
  have hfinite : (ofInt n).isFinite = true := isFinite_ofInt (by omega)
  by_cases h0 : n = 0
  · subst h0
    decide +kernel
  · obtain ⟨s, hm, hunpack, -⟩ := unpack_ofInt_signed h0 hn
    obtain ⟨hmantissa, hexponent, -⟩ := decoded_of_unpack hunpack
    unfold isWhole Dyadic.isWhole
    rw [hfinite, hmantissa, hexponent, neg_neg, Int.toNat_natCast, Nat.shiftLeft_eq, Nat.one_mul,
      Nat.mul_mod_left]
    simp

theorem integerPart_ofInt_signed (hn : n.natAbs < 2 ^ 53) : integerPart (ofInt n) = n := by
  by_cases h0 : n = 0
  · subst h0
    decide +kernel
  · obtain ⟨s, hm, hunpack, hsign⟩ := unpack_ofInt_signed h0 hn
    have hnegative : isNegative (ofInt n) = decide (n < 0) :=
      (decoded_of_unpack hunpack).2.2.trans hsign
    unfold integerPart
    rw [hnegative, floor_of_unpack hunpack]
    by_cases hneg : n < 0
    · simp only [hneg, decide_true, if_true]
      omega
    · simp only [hneg, decide_false, Bool.false_eq_true, if_false]
      omega

/-- An integer of moderate size is below the limit. -/
theorem abs_ofInt_lt (hn : n.natAbs < 2 ^ 53) : (ofInt n).abs < 9007199254740992 := by
  by_cases h0 : n = 0
  · subst h0
    decide +kernel
  · obtain ⟨s, hm, hunpack, -⟩ := unpack_ofInt_signed h0 hn
    have hlog := log2_lifted (Int.natAbs_pos.mpr h0) hn
    have hlift : lift n.natAbs ≤ 52 := Nat.sub_le _ _
    have habs : (ofInt n).abs.toModel.unpack
        = .finite .positive (n.natAbs * 2 ^ lift n.natAbs) (-(lift n.natAbs : ℤ)) hm := by
      show UnpackedFloat.unpack Format.binary64 (UnpackedFloat.pack Format.binary64
        (ofInt n).toModel.unpack.abs) = _
      rw [hunpack]
      exact unpack_pack_normal hm hlog (by omega) (by omega)
    have hless : compare (-(lift n.natAbs : ℤ)) 1 = .lt := compare_lt_iff_lt.mpr (by omega)
    have hlt : (ofInt n).abs.toModel.unpack.lt (9007199254740992 : Float).toModel.unpack = true := by
      rw [habs, unpack_limit]
      simp [UnpackedFloat.lt, UnpackedFloat.compare, hless]
    exact decide_eq_true hlt

theorem zero_lt_ofInt {k : ℕ} (h0 : 0 < k) (hk : k < 2 ^ 53) : 0 < ofInt k := by
  have hzero : (0 : Float).toModel.unpack = .zero .positive := by rfl
  have hlt : (0 : Float).toModel.unpack.lt (ofInt k).toModel.unpack = true := by
    rw [hzero, unpack_ofInt h0 hk]
    rfl
  exact decide_eq_true hlt

end Number

/-- **An integer below 2⁵³ in magnitude is written as what it was.** -/
theorem jsonOfNumber_ofInt {n : ℤ} (hn : n.natAbs < 2 ^ 53) :
    jsonOfNumber (Number.ofInt n) = .number (.int n) := by
  have hfinite : (Number.ofInt n).isFinite = true := Number.isFinite_ofInt (by omega)
  unfold jsonOfNumber
  rw [hfinite, Number.isWhole_ofInt hn, decide_eq_true (Number.abs_ofInt_lt hn),
    Number.integerPart_ofInt_signed hn]
  rfl

/-- **A length of an array is counted as what it was.** -/
theorem elementCount_ofInt {n : ℕ} (hn : n ≤ indexLimit) : elementCount (Number.ofInt n) = n := by
  have hlimit : n ≤ 0xFFFFFFFF := hn
  rcases Nat.eq_zero_or_pos n with rfl | h0
  · decide +kernel
  · have hfinite : (Number.ofInt n).isFinite = true := Number.isFinite_ofInt (by omega)
    have hpart : Number.integerPart (Number.ofInt n) = n := Number.integerPart_ofInt (by omega)
    obtain ⟨hnan, hinf⟩ := Number.ordinary_of_isFinite hfinite
    unfold elementCount Number.truncate
    rw [hfinite, decide_eq_true (Number.zero_lt_ofInt h0 (by omega)), hnan, hinf, hpart]
    have hmax : (n : ℤ) ≤ UInt64.size - 1 := by
      have hsize : (UInt64.size : ℤ) = 18446744073709551616 := rfl
      omega
    simp only [Bool.and_self, if_true, Bool.false_eq_true, if_false, min_eq_right hmax]
    omega

/-- **The key of an index denotes the index.** -/
theorem Key.arrayIndex?_ofIndex {n : ℕ} (hn : n < indexLimit) : (Key.ofIndex n).arrayIndex? = some n := by
  have hdigits : (toString n).toList = Number.digitsOf n := by
    rw [Nat.toString_eq_repr, Nat.toList_repr]
    rfl
  have hcanonical : isCanonicalIndex (Number.digitsOf n) = true := by
    have hall : (Number.digitsOf n).all Char.isDigit = true :=
      List.all_eq_true.mpr fun _ h => Number.isDigit_of_mem_digitsOf h
    have hhead : ((Number.digitsOf n).length == 1 || (Number.digitsOf n).head? != some '0') = true := by
      by_cases h0 : n = 0
      · subst h0
        rfl
      · rw [bne_iff_ne.mpr (Number.head_digitsOf h0), Bool.or_true]
    simp [isCanonicalIndex, Number.digitsOf_ne_nil, hall, hhead]
  have hlength : (Number.digitsOf n).length ≤ 10 := by
    have hlimit : n < 0xFFFFFFFF := hn
    exact (Nat.length_toDigits_le_iff (by decide) (by decide)).mpr (by omega)
  have hvalue : Number.decimalValue (Number.digitsOf n) = n := by
    rw [Number.decimalValue, Number.digits?_digitsOf, Option.getD_some]
  rw [Key.ofIndex, Key.arrayIndex?, hdigits]
  simp [hcanonical, hlength, hvalue, hn]

end Stasis
