import Mathlib
import Stasis.Evaluate.Operator
import Stasis.Proofs.Run

/-!
# Arithmetic of big integers

A big integer has 128 bits. An operator on two of them gives the result of unbounded arithmetic or
refuses; it refuses every result that does not fit, and beyond these only a few that would.

* `exactResult`: arithmetic of integers without bounds.
* `GivesUp`: the operands to which an operator is not applied, although the result would fit.
* `wideResult_eq_ok_iff`: what an operator gives.
* `testBit_bitwise`: operators on bits are exact.
* `yields_binary_bigint_iff`: what scripts get from arithmetic.
* `yields_negate_bigint`, `stepped_succ`, `stepped_pred`: a changed sign and a step are exact, but at
  one end of the range.
* `fitsWide_of_yields_binary`: no operator leaves the range.
-/

namespace Stasis

open Script (BinaryOp)
open Number (fitsWide minWide maxWide wrapWide)

variable {op : BinaryOp} {a b n : ℤ} {r r' : Realm} {v : Value}

/-! ## The range -/

theorem minWide_eq : minWide = -2 ^ 127 := by decide

theorem maxWide_eq : maxWide = 2 ^ 127 - 1 := by decide

theorem fitsWide_iff : fitsWide n = true ↔ -2 ^ 127 ≤ n ∧ n < 2 ^ 127 := by
  rw [fitsWide, decide_eq_true_iff, minWide_eq, maxWide_eq]
  omega

theorem fitsWide_toInt (x : BitVec 128) : fitsWide x.toInt = true :=
  fitsWide_iff.mpr ⟨x.le_toInt, x.toInt_lt⟩

/-- An integer that fits is what its bits stand for. -/
theorem wrapWide_of_fitsWide (h : fitsWide n = true) : wrapWide n = n := by
  obtain ⟨hlo, hhi⟩ := fitsWide_iff.mp h
  rw [wrapWide, BitVec.toInt_ofInt]
  exact Int.bmod_eq_of_le (by omega) (by omega)

/-! ## Division -/

/-- A quotient fits, but for that of the least integer and minus one. -/
theorem fitsWide_tdiv_iff (ha : fitsWide a = true) :
    fitsWide (a.tdiv b) = true ↔ ¬ (a = minWide ∧ b = -1) := by
  rw [fitsWide_iff] at ha
  rw [fitsWide_iff, minWide_eq]
  have hle := Int.natAbs_tdiv_le_natAbs a b
  by_cases hb : b = -1
  · have hneg : a.tdiv b = -a := by rw [hb, Int.tdiv_neg, Int.tdiv_one]
    omega
  · refine ⟨fun _ h => hb h.2, fun _ => ⟨by omega, ?_⟩⟩
    by_contra hlarge
    -- only the least integer is that far from zero
    have ha : a = -2 ^ 127 := by omega
    have hquot : (a.tdiv b).natAbs = a.natAbs / b.natAbs := Int.natAbs_tdiv a b
    rcases Nat.lt_or_ge b.natAbs 2 with hsmall | htwo
    · have hb : b = 0 ∨ b = 1 := by omega
      rcases hb with rfl | rfl
      · rw [Int.tdiv_zero] at hlarge
        omega
      · rw [Int.tdiv_one] at hlarge
        omega
    · have hhalf : a.natAbs / b.natAbs ≤ a.natAbs / 2 := Nat.div_le_div_left htwo (by omega)
      omega

/-- A remainder is no further from zero than the dividend, and on the same side. -/
theorem fitsWide_tmod (ha : fitsWide a = true) : fitsWide (a.tmod b) = true := by
  rw [fitsWide_iff] at ha ⊢
  have habs : (a.tmod b).natAbs = a.natAbs % b.natAbs := Int.natAbs_tmod a b
  have hle := Nat.mod_le a.natAbs b.natAbs
  rcases Int.le_total 0 a with hpos | hneg
  · have hsign := Int.tmod_nonneg b hpos
    omega
  · have hsign := Int.tmod_nonneg b (Int.neg_nonneg_of_nonpos hneg)
    rw [Int.neg_tmod] at hsign
    omega

/-! ## Powers -/

/-- Powers of 0, 1 and -1 depend on the parity of the exponent only. -/
theorem pow_eq_pow_parity (ha : a.natAbs ≤ 1) (e : ℕ) :
    a ^ (if e = 0 then 0 else 2 - e % 2) = a ^ e := by
  have ha : a = 0 ∨ a = 1 ∨ a = -1 := by omega
  by_cases he : e = 0
  · rw [if_pos he, he]
  · rw [if_neg he]
    rcases ha with rfl | rfl | rfl
    · rw [zero_pow he, zero_pow (by omega)]
    · rw [one_pow, one_pow]
    · rcases Nat.even_or_odd e with heven | hodd
      · rw [heven.neg_one_pow, Nat.even_iff.mp heven]
        rfl
      · rw [hodd.neg_one_pow, Nat.odd_iff.mp hodd]
        rfl

/-- The powers of other integers grow out of the range. -/
theorem le_of_fitsWide_pow {e : ℕ} (ha : 2 ≤ a.natAbs) (h : fitsWide (a ^ e) = true) : e ≤ 127 := by
  rw [fitsWide_iff] at h
  by_contra hlarge
  have hpow : 2 ^ 128 ≤ a.natAbs ^ e :=
    (Nat.pow_le_pow_right (by omega) (by omega)).trans (Nat.pow_le_pow_left ha e)
  rw [← Int.natAbs_pow] at hpow
  omega

theorem widePower_eq_some_iff {e : ℕ} (h : fitsWide n = true) :
    widePower a e = some n ↔ a ^ e = n ∧ ¬ (a.natAbs ≤ 1 ∧ UInt32.size ≤ e) := by
  unfold widePower
  by_cases ha : a.natAbs ≤ 1
  · rw [if_pos ha]
    by_cases he : UInt32.size ≤ e
    · rw [if_pos he]
      exact ⟨nofun, fun hn => absurd ⟨ha, he⟩ hn.2⟩
    · rw [if_neg he, Option.some.injEq]
      have hpow := pow_eq_pow_parity ha e
      exact ⟨fun hn => ⟨hpow.symm.trans hn, fun hlarge => he hlarge.2⟩, fun hn => hpow.trans hn.1⟩
  · rw [if_neg ha]
    by_cases he : e ≤ 128
    · rw [if_pos he, Option.some.injEq]
      exact ⟨fun hn => ⟨hn, fun hsmall => ha hsmall.1⟩, fun hn => hn.1⟩
    · rw [if_neg he]
      refine ⟨nofun, fun hn => ?_⟩
      have hle := le_of_fitsWide_pow (by omega) (hn.1 ▸ h)
      omega

/-! ## Operators on two integers -/

/-- The arithmetic of integers without bounds, where there is a result. -/
def exactResult (op : BinaryOp) (a b : ℤ) : Option ℤ :=
  match op with
  | .add => some (a + b)
  | .sub => some (a - b)
  | .mul => some (a * b)
  | .div => if b = 0 then none else some (a.tdiv b)
  | .rem => if b = 0 then none else some (a.tmod b)
  | _ => if b < 0 then none else some (a ^ b.toNat)

/-- The operator is not applied, although the result would fit: a remainder whose quotient does not
fit, and a power with a large exponent whose base stays as it is or alternates. -/
def GivesUp (op : BinaryOp) (a b : ℤ) : Prop :=
  match op with
  | .add | .sub | .mul | .div => False
  | .rem => a = minWide ∧ b = -1
  | _ => a.natAbs ≤ 1 ∧ (UInt32.size : ℤ) ≤ b

/-- A result that does not fit is refused. -/
theorem fit_eq_ok_iff {result : Option ℤ} {message : String} :
    (match result.filter fitsWide with
      | some n => Except.ok n
      | none => Except.error message) = .ok n ↔ result = some n ∧ fitsWide n = true := by
  rw [← Option.filter_eq_some_iff]
  cases result.filter fitsWide with
  | none => exact ⟨nofun, nofun⟩
  | some m => rw [Except.ok.injEq, Option.some.injEq]

/-- **What an operator gives**: the exact result, if there is one, if it fits and if the operator is
not one that gives up. -/
theorem wideResult_eq_ok_iff (ha : fitsWide a = true) : wideResult op a b = .ok n ↔
    exactResult op a b = some n ∧ fitsWide n = true ∧ ¬ GivesUp op a b := by
  have hexact {result : Option ℤ} {message : String} :
      (match result.filter fitsWide with
        | some n => Except.ok n
        | none => Except.error message) = .ok n ↔ result = some n ∧ fitsWide n = true ∧ ¬ False := by
    rw [fit_eq_ok_iff, not_false_iff, and_true]
  cases op with
  | add | sub | mul => exact hexact
  | div =>
    by_cases hb : b = 0
    · simp only [wideResult, exactResult, if_pos hb, reduceCtorEq, false_and]
    · simp only [wideResult, exactResult, if_neg hb]
      exact hexact
  | rem =>
    by_cases hb : b = 0
    · simp only [wideResult, exactResult, if_pos hb, reduceCtorEq, false_and]
    · simp only [wideResult, exactResult, GivesUp, if_neg hb, ← fitsWide_tdiv_iff ha]
      by_cases hquot : fitsWide (a.tdiv b) = true
      · rw [if_pos hquot, Except.ok.injEq, Option.some.injEq]
        exact ⟨fun h => ⟨h, h ▸ fitsWide_tmod ha, hquot⟩, fun h => h.1⟩
      · rw [if_neg hquot]
        refine ⟨fun h => ?_, fun h => absurd h.2.2 hquot⟩
        cases h
  | _ =>
    by_cases hb : b < 0
    · simp only [wideResult, exactResult, if_pos hb, reduceCtorEq, false_and]
    · simp only [wideResult, exactResult, GivesUp, if_neg hb, Option.some.injEq]
      have hsize : (UInt32.size : ℤ) ≤ b ↔ UInt32.size ≤ b.toNat := by omega
      refine fit_eq_ok_iff.trans ⟨fun h => ?_, fun h => ?_⟩
      · obtain ⟨hpow, hup⟩ := (widePower_eq_some_iff h.2).mp h.1
        exact ⟨hpow, h.2, by rwa [hsize]⟩
      · exact ⟨(widePower_eq_some_iff h.2.1).mpr ⟨h.1, by rw [← hsize]; exact h.2.2⟩, h.2.1⟩

/-- Where an operator gives up there is a result, and it fits. -/
theorem exactResult_of_givesUp (h : GivesUp op a b) :
    ∃ n, exactResult op a b = some n ∧ fitsWide n = true := by
  cases op with
  | add | sub | mul | div => exact h.elim
  | rem =>
    obtain ⟨rfl, rfl⟩ := h
    exact ⟨0, by decide, by decide⟩
  | _ =>
    obtain ⟨hbase, hlarge⟩ := h
    have hb : ¬ b < 0 := by omega
    refine ⟨a ^ b.toNat, if_neg hb, fitsWide_iff.mpr ?_⟩
    have hpow : (a ^ b.toNat).natAbs ≤ 1 := by
      rw [Int.natAbs_pow]
      exact pow_le_one' hbase _
    omega

/-! ## Operators on bits -/

/-- The bits of what a vector stands for: its own, and its sign from there on. -/
theorem testBit_toInt (x : BitVec 128) (k : ℕ) :
    x.toInt.testBit k = if k < 128 then x.getLsbD k else x.msb := by
  have hlt := x.isLt
  by_cases hmsb : x.msb = true
  · have hint : x.toInt = Int.negSucc (2 ^ 128 - (x.toNat + 1)) := by
      rw [BitVec.toInt_eq_msb_cond, if_pos hmsb, Int.negSucc_eq]
      omega
    rw [hint]
    show (!(2 ^ 128 - (x.toNat + 1)).testBit k) = _
    rw [Nat.testBit_two_pow_sub_succ hlt, hmsb]
    by_cases hk : k < 128
    · rw [if_pos hk, decide_eq_true hk, Bool.true_and, Bool.not_not, BitVec.testBit_toNat]
    · rw [if_neg hk, decide_eq_false hk, Bool.false_and, Bool.not_false]
  · have hint : x.toInt = (x.toNat : ℤ) := by
      rw [BitVec.toInt_eq_msb_cond, if_neg hmsb]
    rw [hint]
    show x.toNat.testBit k = _
    rw [BitVec.testBit_toNat, Bool.eq_false_iff.mpr hmsb]
    by_cases hk : k < 128
    · rw [if_pos hk]
    · rw [if_neg hk, BitVec.getLsbD_of_ge x k (by omega)]

/-- What an operator on bits does to one bit of each operand. -/
def bitResult (op : BinaryOp) (x y : Bool) : Bool :=
  match op with
  | .bitAnd => x && y
  | .bitOr => x || y
  | _ => x ^^ y

/-- **Operators on bits are exact**, on the two's complement of integers without bounds. -/
theorem testBit_bitwise (ha : fitsWide a = true) (hb : fitsWide b = true) (k : ℕ) :
    (Number.bitwise 128 (bitOperation op 128) a b).testBit k =
      bitResult op (a.testBit k) (b.testBit k) := by
  have hbits (m : ℤ) (hm : fitsWide m = true) : m.testBit k =
      if k < 128 then (BitVec.ofInt 128 m).getLsbD k else (BitVec.ofInt 128 m).msb := by
    rw [← testBit_toInt]
    exact congrArg (Int.testBit · k) (wrapWide_of_fitsWide hm).symm
  rw [Number.bitwise, testBit_toInt, hbits a ha, hbits b hb]
  by_cases hk : k < 128
  · simp only [if_pos hk]
    cases op with
    | bitAnd => exact BitVec.getLsbD_and
    | bitOr => exact BitVec.getLsbD_or
    | _ => exact BitVec.getLsbD_xor
  · simp only [if_neg hk]
    cases op with
    | bitAnd => exact BitVec.msb_and
    | bitOr => exact BitVec.msb_or
    | _ => exact BitVec.msb_xor

theorem fitsWide_bitwise (f : BitVec 128 → BitVec 128 → BitVec 128) :
    fitsWide (Number.bitwise 128 f a b) = true :=
  fitsWide_toInt _

/-! ## Operators on one integer -/

/-- The complement of an integer that fits does. -/
theorem fitsWide_complement (ha : fitsWide a = true) : fitsWide (-a - 1) = true := by
  rw [fitsWide_iff] at ha ⊢
  omega

/-- Just outside of the range, an integer is cut to the other end of it. -/
theorem wrapWide_of_near (hlo : -2 ^ 127 - 1 ≤ n) (hhi : n ≤ 2 ^ 127) :
    wrapWide n = if n = 2 ^ 127 then minWide else if n = -2 ^ 127 - 1 then maxWide else n := by
  by_cases hover : n = 2 ^ 127
  · rw [if_pos hover, hover]
    decide
  · rw [if_neg hover]
    by_cases hunder : n = -2 ^ 127 - 1
    · rw [if_pos hunder, hunder]
      decide
    · rw [if_neg hunder]
      exact wrapWide_of_fitsWide (fitsWide_iff.mpr ⟨by omega, by omega⟩)

/-- **Counting up is exact**, but for the greatest integer, behind which the least one comes. -/
theorem stepped_succ (ha : fitsWide a = true) :
    stepped (.bigint a) 1 = .bigint (if a = maxWide then minWide else a + 1) := by
  obtain ⟨hlo, hhi⟩ := fitsWide_iff.mp ha
  rw [stepped, wrapWide_of_near (by omega) (by omega), maxWide_eq]
  congr 1
  split_ifs <;> omega

/-- **Counting down is exact**, but for the least integer, before which the greatest one comes. -/
theorem stepped_pred (ha : fitsWide a = true) :
    stepped (.bigint a) (-1) = .bigint (if a = minWide then maxWide else a - 1) := by
  obtain ⟨hlo, hhi⟩ := fitsWide_iff.mp ha
  rw [stepped, wrapWide_of_near (by omega) (by omega), minWide_eq]
  congr 1
  split_ifs <;> omega

/-! ## What scripts get -/

theorem not_yields_bool {α : Type} {action : Run α} {f : α → Bool} :
    ¬ Yields (action >>= fun x => pure (Value.bool (f x))) r (.bigint n) r' := by
  intro h
  obtain ⟨_, r₁, -, h⟩ := yields_bind_iff.mp h
  cases h

section

variable [Machine]

theorem yields_toNumeric_bigint (n : ℤ) (r : Realm) :
    Yields (toNumeric (.bigint n)) r (.bigint n) r := rfl

/-- Arithmetic with big integers is that of `wideResult`. -/
theorem run_arithmetic_bigint (op : BinaryOp) (a b : ℤ) (r : Realm) :
    r.run (arithmetic op (.bigint a) (.bigint b)) = match wideResult op a b with
      | .ok n => (.ok (.bigint n), r)
      | .error message => r.run (throwRange message) := by
  unfold arithmetic
  rw [(yields_toNumeric_bigint a r).run_bind, (yields_toNumeric_bigint b r).run_bind]
  dsimp only
  cases wideResult op a b with
  | ok n => rfl
  | error message => rfl

/-- The operators that are applied to numbers. -/
def arithmeticOps : List BinaryOp := [.add, .sub, .mul, .div, .rem, .exp]

theorem run_binary_bigint (hop : op ∈ arithmeticOps) (a b : ℤ) (r : Realm) :
    r.run (binary op (.bigint a) (.bigint b)) = match wideResult op a b with
      | .ok n => (.ok (.bigint n), r)
      | .error message => r.run (throwRange message) := by
  rw [← run_arithmetic_bigint]
  simp only [arithmeticOps, List.mem_cons, List.not_mem_nil, or_false] at hop
  rcases hop with rfl | rfl | rfl | rfl | rfl | rfl <;> rfl

/-- **Arithmetic with big integers** gives the exact result, if it fits and the operator does not give
up, and leaves everything as it is. -/
theorem yields_binary_bigint_iff (hop : op ∈ arithmeticOps) (ha : fitsWide a = true) :
    Yields (binary op (.bigint a) (.bigint b)) r v r' ↔
      ∃ n, exactResult op a b = some n ∧ fitsWide n = true ∧ ¬ GivesUp op a b ∧
        v = .bigint n ∧ r' = r := by
  unfold Yields
  rw [run_binary_bigint hop]
  cases hresult : wideResult op a b with
  | ok n =>
    obtain ⟨hexact, hfits, hup⟩ := (wideResult_eq_ok_iff ha).mp hresult
    constructor
    · intro h
      cases h
      exact ⟨n, hexact, hfits, hup, rfl, rfl⟩
    · rintro ⟨m, hm, -, -, rfl, rfl⟩
      rw [hexact, Option.some.injEq] at hm
      rw [hm]
  | error message =>
    refine ⟨fun h => absurd h not_yields_throwNew, ?_⟩
    rintro ⟨m, hm, hfits, hup, -, -⟩
    rw [(wideResult_eq_ok_iff ha).mpr ⟨hm, hfits, hup⟩] at hresult
    cases hresult

/-- Where it gives no result it throws a range error. -/
theorem run_binary_bigint_of_refused (hop : op ∈ arithmeticOps) (ha : fitsWide a = true)
    (h : ∀ n, exactResult op a b = some n → fitsWide n = true → GivesUp op a b) :
    ∃ message, r.run (binary op (.bigint a) (.bigint b)) = r.run (throwRange message) := by
  rw [run_binary_bigint hop]
  cases hresult : wideResult op a b with
  | ok n =>
    obtain ⟨hexact, hfits, hup⟩ := (wideResult_eq_ok_iff ha).mp hresult
    exact absurd (h n hexact hfits) hup
  | error message => exact ⟨message, rfl⟩

/-- **A changed sign is exact**, but for the least integer, which stays as it is. -/
theorem yields_negate_bigint (ha : fitsWide a = true) (r : Realm) :
    Yields (negate (.bigint a)) r (.bigint (if a = minWide then minWide else -a)) r := by
  have hwrap : wrapWide (-a) = if a = minWide then minWide else -a := by
    obtain ⟨hlo, hhi⟩ := fitsWide_iff.mp ha
    rw [wrapWide_of_near (by omega) (by omega), minWide_eq]
    split_ifs <;> omega
  rw [← hwrap]
  rfl

/-- A complement is exact, and fits. -/
theorem yields_invert_bigint (ha : fitsWide a = true) (r : Realm) :
    Yields (invert (.bigint a)) r (.bigint (-a - 1)) r ∧ fitsWide (-a - 1) = true :=
  ⟨rfl, fitsWide_complement ha⟩

/-! ## Big integers stay in their range -/

/-- **Whatever operator is applied to two big integers, a big integer that it gives fits.** -/
theorem fitsWide_of_yields_binary (ha : fitsWide a = true)
    (h : Yields (binary op (.bigint a) (.bigint b)) r (.bigint n) r') : fitsWide n = true := by
  cases op with
  | add | sub | mul | div | rem | exp =>
    obtain ⟨m, -, hfits, -, hm, -⟩ := (yields_binary_bigint_iff (by decide) ha).mp h
    cases hm
    exact hfits
  | bitAnd | bitOr | bitXor =>
    cases h
    exact fitsWide_bitwise _
  | eq | notEq | lt | gt | ltEq | gtEq | instanceOf => exact absurd h not_yields_bool
  | strictEq | strictNotEq => cases h
  | «in» =>
    obtain ⟨_, _, -, h⟩ := yields_bind_iff.mp h
    obtain ⟨_, _, -, h⟩ := yields_bind_iff.mp h
    exact absurd h not_yields_throwNew

end

end Stasis
