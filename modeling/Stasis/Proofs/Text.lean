import Mathlib
import Stasis.Number.Arithmetic
import Stasis.Number.Layout
import Stasis.Number.Reader
import Stasis.Text.Hex

/-!
# Texts that read back

* `readInteger_integerText`: the text of a big integer reads as the integer.
* `bytesOfHex_hexOfBytes`: the digits of bytes read as the bytes.
-/

namespace Stasis

/-! ## Integers -/

namespace Number

theorem digitValue?_digitChar {d : ℕ} (h : d < 10) : digitValue? (Nat.digitChar d) = some d := by
  interval_cases d <;> decide

theorem digitsFrom?_append (base : ℕ) (cs : List Char) (c : Char) :
    ∀ acc, digitsFrom? base acc (cs ++ [c]) =
      (digitsFrom? base acc cs).bind fun n => digitsFrom? base n [c] := by
  induction cs with
  | nil => intro acc; rfl
  | cons d cs ih =>
    intro acc
    simp only [List.cons_append, digitsFrom?]
    split
    · split
      · exact ih _
      · rfl
    · rfl

/-- The decimal digits of a natural number read as the number. -/
theorem digits?_digitsOf (n : ℕ) : digitsFrom? 10 0 (digitsOf n) = some n := by
  unfold digitsOf
  induction n using Nat.strong_induction_on with
  | _ n ih =>
    by_cases h : n < 10
    · rw [Nat.toDigits_of_lt_base h]
      simp [digitsFrom?, digitValue?_digitChar h, h]
    · have hm : n % 10 < 10 := Nat.mod_lt _ (by omega)
      rw [Nat.toDigits_of_base_le (by omega) (by omega), digitsFrom?_append, ih (n / 10) (by omega)]
      simp only [Option.bind_some, digitsFrom?, digitValue?_digitChar hm, hm, if_true]
      congr 1
      omega

theorem digitsOf_ne_nil (n : ℕ) : digitsOf n ≠ [] := Nat.toDigits_ne_nil

theorem isDigit_of_mem_digitsOf {n : ℕ} {c : Char} (h : c ∈ digitsOf n) : c.isDigit = true :=
  Nat.isDigit_of_mem_toDigits (by omega) (by omega) h

theorem readInteger_digitsOf {n : ℕ} {lo hi : ℤ} (h : lo ≤ n ∧ (n : ℤ) ≤ hi) :
    readInteger 10 lo hi (digitsOf n) = some (n : ℤ) := by
  obtain ⟨c, cs, hcs⟩ := List.exists_cons_of_ne_nil (digitsOf_ne_nil n)
  have hc : c.isDigit = true := isDigit_of_mem_digitsOf (n := n) (by simp [hcs])
  have hp : c ≠ '+' := by rintro rfl; exact absurd hc (by decide)
  have hm : c ≠ '-' := by rintro rfl; exact absurd hc (by decide)
  have hd : digits? 10 (c :: cs) = some n := by
    rw [← hcs]; simp [digits?, digits?_digitsOf, digitsOf_ne_nil]
  rw [hcs]
  unfold readInteger
  split
  · next heq => cases heq; exact absurd rfl hp
  · next heq => cases heq; exact absurd rfl hm
  · simp [hd, h]

/-- **The text of a big integer reads as the integer.** -/
theorem readInteger_integerText {n : ℤ} {lo hi : ℤ} (h : lo ≤ n ∧ n ≤ hi) :
    readInteger 10 lo hi (integerText n).toList = some n := by
  unfold integerText
  rw [String.toList_ofList]
  by_cases hn : n < 0
  · rw [if_pos hn]
    have hd : digits? 10 (digitsOf n.natAbs) = some n.natAbs := by
      simp [digits?, digits?_digitsOf, digitsOf_ne_nil]
    have hv : -|n| = n := by rw [abs_of_neg hn, neg_neg]
    unfold readInteger
    simp [hd, hv, h]
  · rw [if_neg hn]
    have hn' : ((n.natAbs : ℕ) : ℤ) = n := by omega
    rw [readInteger_digitsOf (by omega), hn']

end Number

/-! ## Bytes -/

theorem toList_loop_eq (b : ByteArray) :
    ∀ i r, ByteArray.toList.loop b i r = r.reverse ++ b.data.toList.drop i := by
  intro i r
  fun_induction ByteArray.toList.loop b i r with
  | case1 i r h ih =>
    rw [ih, List.reverse_cons, List.append_assoc]
    have hi : i < b.data.toList.length := by simpa using h
    rw [List.drop_eq_getElem_cons hi]
    have : b.get! i = b.data.toList[i] := by
      simp only [ByteArray.get!, Array.getElem_toList]
      exact getElem!_pos b.data i (by simpa using h)
    simp [this]
  | case2 i r h =>
    have : b.data.toList.length ≤ i := by simpa using h
    rw [List.drop_eq_nil_of_le this, List.append_nil]

theorem byteArray_toList_eq (b : ByteArray) : b.toList = b.data.toList := by
  unfold ByteArray.toList
  rw [toList_loop_eq]
  rfl

namespace Text

theorem utf8_toList_ofList (cs : List Char) :
    (String.ofList cs).toUTF8.toList = cs.flatMap String.utf8EncodeChar := by
  rw [String.toUTF8_eq_toByteArray, String.toByteArray_ofList, byteArray_toList_eq,
    List.utf8Encode, List.toList_data_toByteArray]

/-- The two digits of a byte, as they are read. -/
theorem hexOfByte_read (b : UInt8) (position : ℕ) :
    ∃ x y, (hexOfByte b).flatMap String.utf8EncodeChar = [x, y]
      ∧ ∃ high low, readHexDigit position x = .ok high ∧ readHexDigit (position + 1) y = .ok low
        ∧ (high <<< 4 ||| low) = b := by
  have h : ∀ d < 16, ∃ x : UInt8, String.utf8EncodeChar (Nat.digitChar d) = [x]
      ∧ ∀ p, readHexDigit p x = .ok d.toUInt8 := by
    intro d hd
    interval_cases d <;> exact ⟨_, rfl, fun _ => rfl⟩
  have hb := b.toNat_lt
  obtain ⟨x, hx, hx'⟩ := h (b.toNat / 16) (by omega)
  obtain ⟨y, hy, hy'⟩ := h (b.toNat % 16) (by omega)
  refine ⟨x, y, by simp [hexOfByte, hx, hy], _, _, hx' _, hy' _, ?_⟩
  have hbytes : ∀ b : UInt8, ((b.toNat / 16).toUInt8 <<< 4 ||| (b.toNat % 16).toUInt8) = b := by
    decide +kernel
  exact hbytes b

theorem length_hexDigits (bytes : List UInt8) :
    ((bytes.flatMap hexOfByte).flatMap String.utf8EncodeChar).length = 2 * bytes.length := by
  induction bytes with
  | nil => rfl
  | cons b bytes ih =>
    obtain ⟨x, y, hxy, -⟩ := hexOfByte_read b 0
    simp only [List.flatMap_cons, List.flatMap_append, hxy, List.length_append, ih,
      List.length_cons, List.length_nil]
    omega

theorem bytesOfDigits_hexDigits (bytes : List UInt8) : ∀ position,
    bytesOfDigits position ((bytes.flatMap hexOfByte).flatMap String.utf8EncodeChar) =
      .ok bytes := by
  induction bytes with
  | nil => intro position; rfl
  | cons b bytes ih =>
    intro position
    obtain ⟨x, y, hxy, high, low, hx, hy, hb⟩ := hexOfByte_read b position
    simp only [List.flatMap_cons, List.flatMap_append, hxy, List.cons_append, List.nil_append,
      bytesOfDigits, hx, hy, ih, bind, Except.bind, pure, Except.pure, hb]

/-- **The digits of bytes read as the bytes.** -/
theorem bytesOfHex_hexOfBytes (bytes : List UInt8) : bytesOfHex (hexOfBytes bytes) = .ok bytes := by
  unfold bytesOfHex hexOfBytes
  simp only [utf8_toList_ofList, length_hexDigits]
  rw [if_neg (by omega), bytesOfDigits_hexDigits]

end Text

end Stasis
