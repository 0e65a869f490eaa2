import Mathlib
import Stasis.Script.Lexer
import Stasis.Proofs.Script.Cut

/-!
# Which characters a token has

Brackets and quotes have a meaning of their own wherever a script is scanned for them. Names and
numbers are made of other characters, and a quoted text goes up to its closing quote.

* `delimiters`: brackets and quotes.
* `IsNumberChar`: the characters of numbers.
* `ToQuote`: what stands between two quotes, with the second of them.
* `toQuote_of_readEscape`: an escape hides no quote but one behind its backslash.
-/

namespace Stasis.Script

open Stasis.Text

variable {c quote : Char} {cs ds text : List Char} {n : ℕ}

/-- Brackets and quotes. -/
def delimiters : List Char := ['(', ')', '[', ']', '\x7b', '\x7d', '"', '\'']

/-- A character of a sort that no delimiter is of. -/
theorem notMem_delimiters {sort : Char → Bool} (hnone : delimiters.all (fun c => !sort c) = true)
    (h : sort c = true) : c ∉ delimiters := by
  intro hc
  have hother := List.all_eq_true.mp hnone c hc
  rw [h] at hother
  cases hother

/-- Names have none of them. -/
theorem notMem_delimiters_of_isNamePart (h : isNamePart c = true) : c ∉ delimiters :=
  notMem_delimiters (by decide) h

/-! ## Numbers -/

/-- A character that a number may have: a letter, a digit, a sign or a point. -/
def isNumberChar (c : Char) : Bool :=
  c.isAlphanum || ['+', '-', '.'].contains c

theorem notMem_delimiters_of_isNumberChar (h : isNumberChar c = true) : c ∉ delimiters :=
  notMem_delimiters (by decide) h

theorem ne_backslash_of_isNumberChar (h : isNumberChar c = true) : c ≠ '\\' := by
  rintro rfl
  have hnone : isNumberChar '\\' = false := by decide
  rw [hnone] at h
  cases h

theorem isAlphanum_of_digitValue? (h : (Number.digitValue? c).isSome = true) :
    c.isAlphanum = true := by
  unfold Number.digitValue? at h
  simp only [Char.isAlphanum, Char.isAlpha, Char.isUpper, Char.isLower, Char.isDigit,
    Bool.or_eq_true, Bool.and_eq_true, decide_eq_true_eq] at h ⊢
  split_ifs at h with h₁ h₂ h₃
  · exact .inr h₁
  · exact .inl (.inr h₂)
  · exact .inl (.inl h₃)
  · cases h

/-- It takes one byte. -/
theorem utf8Size_of_isNumberChar (h : isNumberChar c = true) : c.utf8Size = 1 := by
  rw [Char.utf8Size_eq_one_iff]
  rcases Bool.or_eq_true_iff.mp h with h | h
  · simp only [Char.isAlphanum, Char.isAlpha, Char.isUpper, Char.isLower, Char.isDigit,
      Bool.or_eq_true, Bool.and_eq_true, decide_eq_true_eq] at h
    have hcode : ((65 ≤ c.toNat ∧ c.toNat ≤ 90) ∨ (97 ≤ c.toNat ∧ c.toNat ≤ 122)) ∨
        (48 ≤ c.toNat ∧ c.toNat ≤ 57) := h
    show c.toNat ≤ 127
    omega
  · have hall : ['+', '-', '.'].all (fun c => decide (c.val ≤ 127)) = true := by decide
    exact of_decide_eq_true (List.all_eq_true.mp hall c (List.contains_iff_mem.mp h))

theorem isNumberChar_of_digitsFrom? {base acc : ℕ}
    (h : (Number.digitsFrom? base acc cs).isSome = true) : ∀ c ∈ cs, isNumberChar c = true := by
  induction cs generalizing acc with
  | nil => exact nofun
  | cons c cs ih =>
    rw [Number.digitsFrom?] at h
    split at h
    · next value hvalue =>
      split at h
      · have halphanum := isAlphanum_of_digitValue? (Option.isSome_iff_exists.mpr ⟨value, hvalue⟩)
        refine List.forall_mem_cons.mpr ⟨?_, ih h⟩
        rw [isNumberChar, halphanum, Bool.true_or]
      · cases h
    · cases h

/-- A natural number is written with characters of numbers. -/
theorem isNumberChar_of_readNatural {base hi value : ℕ}
    (h : Number.readNatural base hi cs = some value) : ∀ c ∈ cs, isNumberChar c = true := by
  have hdigits {body : List Char} (hbody : (Number.digits? base body).filter (· ≤ hi) = some value) :
      ∀ c ∈ body, isNumberChar c = true := by
    have hsome := (Option.filter_eq_some_iff.mp hbody).1
    unfold Number.digits? at hsome
    split at hsome
    · cases hsome
    · exact isNumberChar_of_digitsFrom? (Option.isSome_iff_exists.mpr ⟨value, hsome⟩)
  unfold Number.readNatural at h
  split at h
  · exact List.forall_mem_cons.mpr ⟨by decide, hdigits h⟩
  · exact hdigits h

theorem isNumberChar_of_isDigit (h : c.isDigit = true) : isNumberChar c = true := by
  rw [isNumberChar, Char.isAlphanum, h, Bool.or_true, Bool.true_or]

/-- A run of digits. -/
theorem isNumberChar_of_mem_digits (h : c ∈ cs.takeWhile Char.isDigit) : isNumberChar c = true :=
  isNumberChar_of_isDigit (List.mem_takeWhile_imp h)

/-- A number in a base of its own begins with a zero and a letter. -/
theorem announces_of_ne_ten (h : announcedBase cs ≠ 10) :
    ∃ c rest, cs = '0' :: c :: rest ∧ isNumberChar c = true := by
  unfold announcedBase at h
  split at h
  · next c rest =>
    refine ⟨c, rest, rfl, ?_⟩
    split_ifs at h with hex octal binary
    · rcases hex with rfl | rfl <;> decide
    · rcases octal with rfl | rfl <;> decide
    · rcases binary with rfl | rfl <;> decide
    · exact absurd rfl h
  · exact absurd rfl h

/-- The characters of a number in a base of its own. -/
theorem isNumberChar_of_announced (h : announcedBase cs ≠ 10) :
    ∀ c ∈ cs.take (2 + ((cs.drop 2).takeWhile Char.isAlphanum).length), isNumberChar c = true := by
  obtain ⟨mark, rest, rfl, hmark⟩ := announces_of_ne_ten h
  have hrun : rest.takeWhile Char.isAlphanum <+: rest := List.takeWhile_prefix _
  rw [Nat.add_comm, List.drop_succ_cons, List.drop_succ_cons, List.drop_zero, List.take_succ_cons,
    List.take_succ_cons, ← List.prefix_iff_eq_take.mp hrun]
  refine List.forall_mem_cons.mpr ⟨by decide, List.forall_mem_cons.mpr ⟨hmark, fun c hc => ?_⟩⟩
  rw [isNumberChar, List.mem_takeWhile_imp hc, Bool.true_or]

/-- The characters of a big integer, with its suffix. -/
theorem isNumberChar_of_suffix
    (h : (cs.drop (cs.takeWhile Char.isDigit).length).head? = some 'n') :
    ∀ c ∈ cs.take ((cs.takeWhile Char.isDigit).length + 1), isNumberChar c = true := by
  have hrun : cs.takeWhile Char.isDigit <+: cs := List.takeWhile_prefix _
  rw [List.take_add, ← List.prefix_iff_eq_take.mp hrun]
  refine List.forall_mem_append.mpr ⟨fun c => isNumberChar_of_mem_digits, fun c hc => ?_⟩
  cases hrest : cs.drop (cs.takeWhile Char.isDigit).length with
  | nil =>
    rw [hrest] at hc
    cases hc
  | cons d more =>
    rw [hrest] at h hc
    rw [List.mem_singleton.mp hc, Option.some.inj h]
    decide

theorem isNumberChar_of_mem_fractionLexeme (h : c ∈ fractionLexeme cs) : isNumberChar c = true := by
  unfold fractionLexeme at h
  split at h
  · rcases List.mem_cons.mp h with rfl | h
    · decide
    · exact isNumberChar_of_mem_digits h
  · cases h

theorem isNumberChar_of_mem_exponentLexeme (h : c ∈ exponentLexeme cs) : isNumberChar c = true := by
  unfold exponentLexeme at h
  split at h
  · cases h
  · next first cs =>
    split at h
    · next hfirst =>
      extract_lets sign ds at h
      split at h
      · cases h
      · rcases List.mem_cons.mp h with rfl | h
        · rcases hfirst with rfl | rfl <;> decide
        rcases List.mem_append.mp h with h | h
        · simp only [sign] at h
          split at h
          · next hsign =>
            cases cs with
            | nil => cases h
            | cons d more =>
              rw [List.mem_singleton.mp h]
              rcases hsign with hplus | hminus
              · rw [Option.some.inj hplus]
                decide
              · rw [Option.some.inj hminus]
                decide
          · cases h
        · exact isNumberChar_of_mem_digits h
    · cases h

/-! ## Quoted texts -/

theorem takeBytes?_eq_some (h : takeBytes? n cs = some ds) : ds <+: cs ∧ byteLength ds = n := by
  fun_induction takeBytes? n cs generalizing ds with
  | case1 =>
    cases h
    exact ⟨List.nil_prefix, rfl⟩
  | case2 => cases h
  | case3 n c cs hsize ih =>
    obtain ⟨more, hmore, rfl⟩ := Option.map_eq_some_iff.mp h
    obtain ⟨hfront, hlength⟩ := ih hmore
    refine ⟨(List.prefix_cons_inj c).mpr hfront, ?_⟩
    rw [byteLength_cons]
    omega
  | case4 => cases h

theorem byteLength_of_isNumberChar (h : ∀ c ∈ cs, isNumberChar c = true) :
    byteLength cs = cs.length := by
  induction cs with
  | nil => rfl
  | cons c cs ih =>
    obtain ⟨hc, hcs⟩ := List.forall_mem_cons.mp h
    rw [byteLength_cons, utf8Size_of_isNumberChar hc, ih hcs, List.length_cons, Nat.add_comm]

/-- The digits of a code. -/
theorem isNumberChar_of_readHex {value : ℕ} (h : readHex n cs = .ok value) :
    ∀ c ∈ cs.take n, isNumberChar c = true := by
  unfold readHex at h
  split at h
  · cases h
  · next ds hds =>
    split at h
    · cases h
    · next hvalue =>
      obtain ⟨hfront, hlength⟩ := takeBytes?_eq_some hds
      have hchars := isNumberChar_of_readNatural hvalue
      rw [byteLength_of_isNumberChar hchars] at hlength
      rw [← hlength, ← List.prefix_iff_eq_take.mp hfront]
      exact hchars

/-- The characters up to a closing quote, with the quote: no other of them is the quote, unless it
stands behind a backslash. -/
inductive ToQuote (quote : Char) : List Char → Prop
  | close : ToQuote quote [quote]
  | plain {c : Char} {cs : List Char} (hquote : c ≠ quote) (hslash : c ≠ '\\')
      (h : ToQuote quote cs) : ToQuote quote (c :: cs)
  | escaped {c : Char} {cs : List Char} (h : ToQuote quote cs) : ToQuote quote ('\\' :: c :: cs)

/-- A quote around a text. -/
def IsQuote (quote : Char) : Prop := quote = '"' ∨ quote = '\''

theorem IsQuote.mem_delimiters (h : IsQuote quote) : quote ∈ delimiters := by
  rcases h with rfl | rfl <;> decide

/-- Characters of numbers stand anywhere before the quote. -/
theorem ToQuote.append (hquote : IsQuote quote) (hds : ∀ c ∈ ds, isNumberChar c = true)
    (h : ToQuote quote cs) : ToQuote quote (ds ++ cs) := by
  induction ds with
  | nil => exact h
  | cons c ds ih =>
    obtain ⟨hc, hds⟩ := List.forall_mem_cons.mp hds
    refine .plain ?_ (ne_backslash_of_isNumberChar hc) (ih hds)
    rintro rfl
    exact notMem_delimiters_of_isNumberChar hc hquote.mem_delimiters

/-- Neither do braces close a quoted text. -/
theorem ToQuote.brace (hquote : IsQuote quote) (hc : c ∈ ['\x7b', '\x7d']) (h : ToQuote quote cs) :
    ToQuote quote (c :: cs) := by
  rcases List.mem_pair.mp hc with rfl | rfl
  · exact .plain (by rcases hquote with rfl | rfl <;> decide) (by decide) h
  · exact .plain (by rcases hquote with rfl | rfl <;> decide) (by decide) h

theorem toQuote_of_readUnicodeEscape {width code : ℕ} (hquote : IsQuote quote)
    (h : readUnicodeEscape cs = .ok (width, code)) (htext : ToQuote quote text) :
    ToQuote quote (cs.take width ++ text) := by
  unfold readUnicodeEscape at h
  split at h
  -- a code between braces
  · next rest =>
    extract_lets hex at h
    split at h
    · next hclose =>
      split at h
      · next hvalue =>
        cases h
        have hsplit : rest.take (hex.length + 1) = hex ++ ['\x7d'] := by
          have hrun : hex <+: rest := List.takeWhile_prefix _
          rw [List.take_add, hclose, ← List.prefix_iff_eq_take.mp hrun]
          rfl
        rw [List.take_succ_cons, hsplit, List.cons_append, List.append_assoc]
        exact .brace hquote (by decide) (.append hquote (isNumberChar_of_readNatural hvalue)
          (.brace hquote (by decide) htext))
      · cases h
    · cases h
  · cases hhigh : readHex 4 cs with
    | error => rw [hhigh] at h; cases h
    | ok high =>
      rw [hhigh] at h
      have hfour := ToQuote.append hquote (isNumberChar_of_readHex hhigh) htext
      simp only [bind, Except.bind, pure, Except.pure] at h
      split at h
      · split at h
        -- another escape behind it, which may belong to it
        · next rest hrest =>
          cases hlow : readHex 4 rest with
          | error => rw [hlow] at h; cases h
          | ok low =>
            rw [hlow] at h
            dsimp only at h
            split at h
            · cases h
              have hlater := ToQuote.append hquote (isNumberChar_of_readHex hlow) htext
              have hsplit : cs.take 10 = cs.take 4 ++ '\\' :: 'u' :: rest.take 4 := by
                rw [show (10 : ℕ) = 4 + 6 from rfl, List.take_add, hrest]
                rfl
              rw [hsplit, List.append_assoc]
              exact .append hquote (isNumberChar_of_readHex hhigh) (.escaped hlater)
            · cases h
              exact hfour
        · cases h
          exact hfour
      · cases h
        exact hfour

/-- **An escape closes no quote.** -/
theorem toQuote_of_readEscape {e : Escape} (hquote : IsQuote quote) (h : readEscape cs = .ok e)
    (htext : ToQuote quote text) : ToQuote quote ('\\' :: (cs.take e.width ++ text)) := by
  unfold readEscape at h
  split at h
  case h_1 => cases h
  case h_10 rest =>
    cases hcode : readHex 2 rest with
    | error => rw [hcode] at h; cases h
    | ok code =>
      rw [hcode] at h
      cases h
      exact .escaped (.append hquote (isNumberChar_of_readHex hcode) htext)
  case h_11 rest =>
    cases hcode : readUnicodeEscape rest with
    | error => rw [hcode] at h; cases h
    | ok found =>
      rw [hcode] at h
      cases h
      exact .escaped (toQuote_of_readUnicodeEscape hquote hcode htext)
  all_goals
    cases h
    exact .escaped htext

end Stasis.Script
