import Mathlib
import Stasis.Json.Reader
import Stasis.Proofs.Script.Spelled
import Stasis.Script.Lexer

/-!
# Quoted texts and their escapes

A text between quotes is a row of characters that stand for themselves and of escapes. It is read exactly
when it has this form, and its value is what the parts of the row denote.

* `IsCode`: the characters of a code in an escape.
* `IsUnicodeEscape`, `IsEscape`: what may stand behind `\u` and behind a backslash, and what it denotes.
* `IsQuoted`: what stands between two quotes, and the text that it denotes.
* `readText_eq_ok_iff`: such texts are read, and no others.
* `IsCode.digits?_of_notMem`: without a plus sign a code is made of hexadecimal digits.
-/

namespace Stasis.Script

open Stasis.Text

variable {c quote : Char} {cs ds rest text : List Char} {n code width : ℕ}

/-! ## Codes -/

theorem takeWhile_append_of_ends {p : Char → Bool} (hcs : ∀ c ∈ cs, p c = true)
    (hrest : ∀ c ∈ rest.head?, p c = false) : (cs ++ rest).takeWhile p = cs := by
  rw [List.takeWhile_append_of_pos hcs]
  cases rest with
  | nil => rw [List.takeWhile_nil, List.append_nil]
  | cons c rest => rw [List.takeWhile_cons_of_neg (by rw [hrest c rfl]; exact nofun), List.append_nil]

/-- The characters of a code: hexadecimal digits, or a plus sign and hexadecimal digits, since the reader of
numbers takes a sign for part of a number. -/
inductive IsCode : List Char → ℕ → Prop
  | digits {ds : List Char} {n : ℕ} (h : Number.digits? 16 ds = some n) : IsCode ds n
  | signed {ds : List Char} {n : ℕ} (h : Number.digits? 16 ds = some n) : IsCode ('+' :: ds) n

example : IsCode ['+', 'f'] 15 := .signed rfl

theorem readNatural_eq_some_iff {hi : ℕ} : Number.readNatural 16 hi ds = some n ↔ IsCode ds n ∧ n ≤ hi := by
  unfold Number.readNatural
  constructor
  · intro h
    obtain ⟨hdigits, hn⟩ := Option.filter_eq_some_iff.mp h
    refine ⟨?_, of_decide_eq_true hn⟩
    split at hdigits
    · exact .signed hdigits
    · exact .digits hdigits
  · rintro ⟨hcode, hn⟩
    refine Option.filter_eq_some_iff.mpr ⟨?_, decide_eq_true hn⟩
    cases hcode with
    | digits h =>
      split
      · cases h
      · exact h
    | signed h => exact h

theorem digitsFrom?_lt {base acc : ℕ} (h : Number.digitsFrom? base acc ds = some n) :
    n < (acc + 1) * base ^ ds.length := by
  induction ds generalizing acc with
  | nil =>
    cases h
    simp
  | cons c ds ih =>
    rw [Number.digitsFrom?] at h
    split at h
    · next d _ =>
      split at h
      · next hd =>
        calc n < (acc * base + d + 1) * base ^ ds.length := ih h
          _ ≤ (acc * base + base) * base ^ ds.length := Nat.mul_le_mul_right _ (by omega)
          _ = (acc + 1) * base ^ (c :: ds).length := by rw [List.length_cons, pow_succ]; ring
      · cases h
    · cases h

theorem IsCode.lt (h : IsCode ds n) : n < 16 ^ ds.length := by
  have hdigits {ds : List Char} (h : Number.digits? 16 ds = some n) : n < 16 ^ ds.length := by
    unfold Number.digits? at h
    split at h
    · cases h
    · simpa using digitsFrom?_lt h
  cases h with
  | digits h => exact hdigits h
  | signed h => exact (hdigits h).trans_le (Nat.pow_le_pow_right (by decide) (Nat.le_succ _))

theorem IsCode.isNumberChar (h : IsCode ds n) : ∀ c ∈ ds, isNumberChar c = true :=
  isNumberChar_of_readNatural (readNatural_eq_some_iff.mpr ⟨h, le_rfl⟩)

/-- Without a plus sign a code is made of digits. -/
theorem IsCode.digits?_of_notMem (h : IsCode ds n) (hplus : '+' ∉ ds) : Number.digits? 16 ds = some n := by
  cases h with
  | digits h => exact h
  | signed => exact absurd List.mem_cons_self hplus

/-- **A code of some characters** is read when they have the form of one. -/
theorem readHex_eq_ok_iff (hwidth : width ≤ 8) :
    readHex width cs = .ok n ↔ ∃ ds rest, cs = ds ++ rest ∧ ds.length = width ∧ IsCode ds n := by
  constructor
  · intro h
    unfold readHex at h
    split at h
    · cases h
    · next ds hds =>
      split at h
      · cases h
      · next hvalue =>
        cases h
        obtain ⟨⟨rest, hrest⟩, hlength⟩ := takeBytes?_eq_some hds
        rw [byteLength_of_isNumberChar (isNumberChar_of_readNatural hvalue)] at hlength
        exact ⟨ds, rest, hrest.symm, hlength, (readNatural_eq_some_iff.mp hvalue).1⟩
  · rintro ⟨ds, rest, rfl, rfl, hcode⟩
    have hn : n ≤ 0xFFFFFFFF := by
      have hlt := hcode.lt.trans_le (Nat.pow_le_pow_right (by decide) hwidth)
      omega
    unfold readHex
    rw [← byteLength_of_isNumberChar hcode.isNumberChar, takeBytes?_append]
    dsimp only
    rw [readNatural_eq_some_iff.mpr ⟨hcode, hn⟩]

theorem isHexDigit_iff : isHexDigit c = true ↔ ∃ d < 16, Number.digitValue? c = some d := by
  have hle (a b : Char) : a ≤ b ↔ a.toNat ≤ b.toNat := Iff.rfl
  have hdigit : c.isDigit = true ↔ 48 ≤ c.toNat ∧ c.toNat ≤ 57 := by
    rw [Char.isDigit, Bool.and_eq_true, decide_eq_true_eq, decide_eq_true_eq]
    exact Iff.rfl
  simp only [isHexDigit, Number.digitValue?, Bool.or_eq_true, Bool.and_eq_true, decide_eq_true_eq, hle,
    hdigit, Char.reduceToNat]
  -- digits, small letters, capital letters, and anything else
  split_ifs <;> simp <;> omega

theorem isSome_digitsFrom?_iff {acc : ℕ} :
    (Number.digitsFrom? 16 acc ds).isSome = true ↔ ∀ c ∈ ds, isHexDigit c = true := by
  induction ds generalizing acc with
  | nil => simp [Number.digitsFrom?]
  | cons c ds ih =>
    rw [List.forall_mem_cons, isHexDigit_iff, Number.digitsFrom?]
    cases hc : Number.digitValue? c with
    | none => simp
    | some d =>
      by_cases hd : d < 16
      · simp [hd, ih]
      · simp [hd]

/-- Characters are read as a number when there are some and each of them is a digit. -/
theorem isSome_digits?_iff :
    (Number.digits? 16 ds).isSome = true ↔ ds ≠ [] ∧ ∀ c ∈ ds, isHexDigit c = true := by
  unfold Number.digits?
  cases ds with
  | nil => simp
  | cons c ds =>
    rw [List.isEmpty_cons, if_neg Bool.false_ne_true, isSome_digitsFrom?_iff]
    simp

/-- Without a plus sign all characters of a code are hexadecimal digits. -/
theorem IsCode.isHexDigit_of_notMem (h : IsCode ds n) (hplus : '+' ∉ ds) : ∀ c ∈ ds, isHexDigit c = true :=
  (isSome_digits?_iff.mp (Option.isSome_iff_exists.mpr ⟨n, h.digits?_of_notMem hplus⟩)).2

/-! ## Escapes -/

/-- The code of the first of two surrogates. -/
def IsHighSurrogate (code : ℕ) : Prop := 0xD800 ≤ code ∧ code < 0xDC00

instance (code : ℕ) : Decidable (IsHighSurrogate code) := inferInstanceAs (Decidable (_ ∧ _))

/-- The code of the second of two surrogates. -/
def IsLowSurrogate (code : ℕ) : Prop := 0xDC00 ≤ code ∧ code < 0xE000

instance (code : ℕ) : Decidable (IsLowSurrogate code) := inferInstanceAs (Decidable (_ ∧ _))

/-- The character of a code has this code. U+FFFD stands for all codes that no character has. -/
theorem toNat_charOfCode (code : ℕ) :
    (charOfCode code).toNat = if code.isValidChar then code else 0xFFFD := by
  unfold charOfCode
  split
  · next hvalid => rw [Char.toNat_ofNat, if_pos hvalid]
  · rfl

/-- No character has the code of a surrogate. -/
theorem not_isValidChar_of_surrogate (h : IsHighSurrogate code ∨ IsLowSurrogate code) :
    ¬ code.isValidChar := by
  simp only [IsHighSurrogate, IsLowSurrogate, Nat.isValidChar] at *
  omega

/-- **Two surrogates denote one character.** -/
theorem toNat_charOfCode_joinSurrogates {high low : ℕ} (hhigh : IsHighSurrogate high)
    (hlow : IsLowSurrogate low) : (charOfCode (joinSurrogates high low)).toNat = joinSurrogates high low := by
  obtain ⟨hhigh, hhigh'⟩ := hhigh
  obtain ⟨hlow, hlow'⟩ := hlow
  have hbounds : 0xDFFF < joinSurrogates high low ∧ joinSurrogates high low < 0x110000 := by
    unfold joinSurrogates
    omega
  rw [toNat_charOfCode, if_pos (.inr hbounds)]

/-- Four characters at the front of a text are a code. -/
def StartsCode (text : List Char) (code : ℕ) : Prop :=
  ∃ ds rest, text = ds ++ rest ∧ ds.length = 4 ∧ IsCode ds code

/-- A code before `rest` is no half of a pair. Where another `\u` follows a high surrogate, four characters
have to be a code there, even if they do not complete a pair. -/
def IsAlone (code : ℕ) (rest : List Char) : Prop :=
  IsHighSurrogate code → ∀ more, rest = '\\' :: 'u' :: more →
    ∃ low, StartsCode more low ∧ ¬ IsLowSurrogate low

/-- What stands behind `\u`, before `rest`, and the code that it denotes. -/
inductive IsUnicodeEscape : List Char → List Char → ℕ → Prop
  | unit {ds rest : List Char} {code : ℕ} (hlength : ds.length = 4) (h : IsCode ds code)
      (halone : IsAlone code rest) : IsUnicodeEscape ds rest code
  | pair {ds es rest : List Char} {high low : ℕ} (hlength : ds.length = 4) (h : IsCode ds high)
      (hhigh : IsHighSurrogate high) (hlength' : es.length = 4) (h' : IsCode es low)
      (hlow : IsLowSurrogate low) :
      IsUnicodeEscape (ds ++ '\\' :: 'u' :: es) rest (joinSurrogates high low)
  | braced {ds rest : List Char} {code : ℕ} (h : Number.digits? 16 ds = some code)
      (hcode : code ≤ 0xFFFFFFFF) : IsUnicodeEscape ('\x7b' :: (ds ++ ['\x7d'])) rest code

/-- Letters behind a backslash, and the characters that they denote. -/
def escapeLetters : List (Char × Char) :=
  [('n', '\n'), ('t', '\t'), ('r', '\r'), ('b', '\x08'), ('f', '\x0c'), ('v', '\x0b'), ('0', '\x00')]

/-- What stands behind a backslash, before `rest`, and the character that it denotes, if any. -/
inductive IsEscape : List Char → List Char → Option Char → Prop
  | letter {l d : Char} {rest : List Char} (h : (l, d) ∈ escapeLetters) : IsEscape [l] rest (some d)
  | feed {rest : List Char} : IsEscape ['\n'] rest none
  | byte {ds rest : List Char} {code : ℕ} (hlength : ds.length = 2) (h : IsCode ds code) :
      IsEscape ('x' :: ds) rest (some (charOfCode code))
  | unicode {cs rest : List Char} {code : ℕ} (h : IsUnicodeEscape cs rest code) :
      IsEscape ('u' :: cs) rest (some (charOfCode code))
  | self {d : Char} {rest : List Char} (hletter : d ∉ escapeLetters.map Prod.fst)
      (hother : d ∉ ['\n', 'x', 'u']) : IsEscape [d] rest (some d)

theorem readHex_of_length (hlength : ds.length = width) (hwidth : width ≤ 8) (h : IsCode ds n) :
    readHex width (ds ++ rest) = .ok n :=
  (readHex_eq_ok_iff hwidth).mpr ⟨ds, rest, rfl, hlength, h⟩

theorem IsCode.head?_ne_brace (h : IsCode ds n) (hne : ds ≠ []) (rest : List Char) :
    (ds ++ rest).head? ≠ some '\x7b' := by
  obtain ⟨d, ds, rfl⟩ := List.exists_cons_of_ne_nil hne
  intro hbrace
  obtain rfl : d = '\x7b' := Option.some.inj hbrace
  exact absurd (h.isNumberChar _ List.mem_cons_self) (by decide)

/-- A code in braces. -/
theorem readUnicodeEscape_brace_iff : readUnicodeEscape ('\x7b' :: cs) = .ok (width, code) ↔
    ∃ ds rest, cs = ds ++ '\x7d' :: rest ∧ width = ds.length + 2 ∧ Number.digits? 16 ds = some code ∧
      code ≤ 0xFFFFFFFF := by
  rw [readUnicodeEscape]
  constructor
  · intro h
    split at h
    · next rest hclose =>
      split at h
      · next hvalue =>
        cases h
        obtain ⟨hcode, hbound⟩ := readNatural_eq_some_iff.mp hvalue
        refine ⟨cs.takeWhile isHexDigit, rest, ?_, rfl, ?_, hbound⟩
        · exact hclose ▸ (List.prefix_iff_eq_append.mp (List.takeWhile_prefix _)).symm
        · refine hcode.digits?_of_notMem fun hplus => ?_
          cases List.mem_takeWhile_imp hplus
      · cases h
    · cases h
  · rintro ⟨ds, rest, rfl, rfl, hdigits, hbound⟩
    have hds := (isSome_digits?_iff.mp (Option.isSome_iff_exists.mpr ⟨code, hdigits⟩)).2
    have hrun : (ds ++ '\x7d' :: rest).takeWhile isHexDigit = ds := by
      refine takeWhile_append_of_ends hds fun c hc => ?_
      rw [← Option.some.inj hc]
      rfl
    have hmodel : (ds ++ '\x7d' :: rest).takeWhile
        (fun c => c.isDigit || ('a' ≤ c && c ≤ 'f') || ('A' ≤ c && c ≤ 'F')) = ds := hrun
    rw [hmodel, List.drop_left]
    simp only [readNatural_eq_some_iff.mpr ⟨IsCode.digits hdigits, hbound⟩]

theorem exists_code_of_readUnicodeEscape (hbrace : cs.head? ≠ some '\x7b')
    (h : readUnicodeEscape cs = .ok (width, code)) :
    ∃ ds rest high, cs = ds ++ rest ∧ ds.length = 4 ∧ IsCode ds high := by
  unfold readUnicodeEscape at h
  split at h
  · exact absurd rfl hbrace
  cases hhigh : readHex 4 cs with
  | error => rw [hhigh] at h; cases h
  | ok high =>
    obtain ⟨ds, rest, hcs, hlength, hcode⟩ := (readHex_eq_ok_iff (by decide)).mp hhigh
    exact ⟨ds, rest, high, hcs, hlength, hcode⟩

/-- Behind a first code, a high surrogate looks for a second escape. -/
theorem readUnicodeEscape_append {high : ℕ} (hlength : ds.length = 4) (h : IsCode ds high)
    (rest : List Char) : readUnicodeEscape (ds ++ rest) =
      if IsHighSurrogate high then
        match rest with
        | '\\' :: 'u' :: more =>
          (readHex 4 more).bind fun low =>
            if IsLowSurrogate low then .ok (10, joinSurrogates high low) else .ok (4, high)
        | _ => .ok (4, high)
      else .ok (4, high) := by
  have hbrace := h.head?_ne_brace (List.ne_nil_of_length_eq_add_one hlength) rest
  have hdrop : (ds ++ rest).drop 4 = rest := by rw [← hlength, List.drop_left]
  unfold readUnicodeEscape
  split
  · next hcons => exact absurd (congrArg List.head? hcons) hbrace
  rw [readHex_of_length hlength (by decide) h]
  simp only [bind, Except.bind, pure, Except.pure, hdrop]
  rfl

/-- **What is read behind `\u` is an escape.** -/
theorem exists_unicodeEscape_of_read (h : readUnicodeEscape cs = .ok (width, code)) :
    ∃ escape rest, cs = escape ++ rest ∧ width = escape.length ∧ IsUnicodeEscape escape rest code := by
  by_cases hbrace : cs.head? = some '\x7b'
  · obtain ⟨more, rfl⟩ := List.head?_eq_some_iff.mp hbrace
    obtain ⟨ds, rest, rfl, rfl, hdigits, hbound⟩ := readUnicodeEscape_brace_iff.mp h
    exact ⟨'\x7b' :: (ds ++ ['\x7d']), rest, by simp, by simp, .braced hdigits hbound⟩
  obtain ⟨ds, rest, high, rfl, hlength, hcode⟩ := exists_code_of_readUnicodeEscape hbrace h
  rw [readUnicodeEscape_append hlength hcode] at h
  by_cases hhigh : IsHighSurrogate high
  · rw [if_pos hhigh] at h
    split at h
    -- another escape behind it, which may belong to it
    · next more =>
      cases hlow : readHex 4 more with
      | error => rw [hlow] at h; cases h
      | ok low =>
        obtain ⟨es, after, rfl, hlength', hcode'⟩ := (readHex_eq_ok_iff (by decide)).mp hlow
        rw [hlow] at h
        by_cases hjoin : IsLowSurrogate low
        · obtain ⟨rfl, rfl⟩ := Prod.mk.inj (Except.ok.inj ((if_pos hjoin).symm.trans h))
          refine ⟨ds ++ '\\' :: 'u' :: es, after, by simp, by simp [hlength, hlength'], ?_⟩
          exact .pair hlength hcode hhigh hlength' hcode' hjoin
        · obtain ⟨rfl, rfl⟩ := Prod.mk.inj (Except.ok.inj ((if_neg hjoin).symm.trans h))
          refine ⟨ds, _, rfl, hlength.symm, .unit hlength hcode ?_⟩
          rintro - more heq
          cases heq
          exact ⟨low, ⟨es, after, rfl, hlength', hcode'⟩, hjoin⟩
    · next hother =>
      cases h
      exact ⟨ds, rest, rfl, hlength.symm, .unit hlength hcode fun _ more heq => absurd heq (hother more)⟩
  · rw [if_neg hhigh] at h
    cases h
    exact ⟨ds, rest, rfl, hlength.symm, .unit hlength hcode fun h => absurd h hhigh⟩

/-- An escape is read to its end. -/
theorem IsUnicodeEscape.read_eq {escape : List Char} (h : IsUnicodeEscape escape rest code) :
    readUnicodeEscape (escape ++ rest) = .ok (escape.length, code) := by
  cases h with
  | unit hlength hcode halone =>
    rw [readUnicodeEscape_append hlength hcode, hlength]
    by_cases hhigh : IsHighSurrogate code
    · rw [if_pos hhigh]
      split
      · next more =>
        obtain ⟨low, ⟨es, after, rfl, hlength', hcode'⟩, hlow⟩ := halone hhigh more rfl
        rw [readHex_of_length hlength' (by decide) hcode']
        exact if_neg hlow
      · rfl
    · rw [if_neg hhigh]
  | pair hlength h hhigh hlength' h' hlow =>
    rw [List.append_assoc, readUnicodeEscape_append hlength h, if_pos hhigh]
    simp only [List.cons_append, readHex_of_length hlength' (by decide) h', List.length_append,
      List.length_cons, hlength, hlength']
    exact if_pos hlow
  | braced h hcode =>
    exact readUnicodeEscape_brace_iff.mpr ⟨_, rest, by simp, by simp, h, hcode⟩

/-- **What is read behind a backslash is an escape.** -/
theorem exists_escape_of_read {e : Escape} (h : readEscape cs = .ok e) :
    ∃ escape rest, cs = escape ++ rest ∧ e.width = escape.length ∧ IsEscape escape rest e.denotes := by
  unfold readEscape at h
  split at h
  case h_1 => cases h
  case h_9 rest =>
    cases h
    exact ⟨['\n'], rest, rfl, rfl, .feed⟩
  case h_10 more =>
    cases hcode : readHex 2 more with
    | error => rw [hcode] at h; cases h
    | ok code =>
      rw [hcode] at h
      cases h
      obtain ⟨ds, rest, rfl, hlength, hcode⟩ := (readHex_eq_ok_iff (by decide)).mp hcode
      exact ⟨'x' :: ds, rest, rfl, by simp [hlength], .byte hlength hcode⟩
  case h_11 more =>
    cases hcode : readUnicodeEscape more with
    | error => rw [hcode] at h; cases h
    | ok found =>
      rw [hcode] at h
      cases h
      obtain ⟨escape, rest, rfl, hwidth, hescape⟩ := exists_unicodeEscape_of_read hcode
      exact ⟨'u' :: escape, rest, rfl, by simp [hwidth], .unicode hescape⟩
  case h_12 d rest _ _ _ _ _ _ _ _ _ _ =>
    cases h
    refine ⟨[d], rest, rfl, rfl, .self ?_ ?_⟩ <;> simp_all [escapeLetters]
  -- the other cases are the letters of the table
  all_goals
    cases h
    exact ⟨_, _, rfl, rfl, .letter (by decide)⟩

/-- An escape is read to its end. -/
theorem IsEscape.read_eq {escape : List Char} {denotes : Option Char} (h : IsEscape escape rest denotes) :
    readEscape (escape ++ rest) = .ok ⟨escape.length, denotes⟩ := by
  cases h with
  | letter h =>
    simp only [escapeLetters, List.mem_cons, Prod.mk.injEq, List.not_mem_nil, or_false] at h
    rcases h with ⟨rfl, rfl⟩ | ⟨rfl, rfl⟩ | ⟨rfl, rfl⟩ | ⟨rfl, rfl⟩ | ⟨rfl, rfl⟩ | ⟨rfl, rfl⟩ | ⟨rfl, rfl⟩ <;>
      rfl
  | feed => rfl
  | byte hlength h =>
    rw [List.cons_append, readEscape, readHex_of_length hlength (by decide) h]
    simp [bind, Except.bind, pure, Except.pure, hlength]
  | unicode h =>
    rw [List.cons_append, readEscape, h.read_eq]
    rfl
  | self hletter hother =>
    simp only [escapeLetters, List.map_cons, List.map_nil, List.mem_cons, List.not_mem_nil, or_false,
      not_or] at hletter hother
    rw [List.cons_append, readEscape]
    · rfl
    all_goals
      intro hd
      simp only [hd, not_true_eq_false, and_false, false_and] at hletter hother

/-! ## Quoted texts -/

/-- What stands between two quotes, before `rest`, and the text that it denotes. -/
inductive IsQuoted (quote : Char) (rest : List Char) : List Char → List Char → Prop
  | nil : IsQuoted quote rest [] []
  | plain {c : Char} {cs value : List Char} (hquote : c ≠ quote) (hfeed : c ≠ '\n') (hslash : c ≠ '\\')
      (h : IsQuoted quote rest cs value) : IsQuoted quote rest (c :: cs) (c :: value)
  | escape {escape cs value : List Char} {denotes : Option Char}
      (hescape : IsEscape escape (cs ++ quote :: rest) denotes) (h : IsQuoted quote rest cs value) :
      IsQuoted quote rest ('\\' :: (escape ++ cs)) (denotes.toList ++ value)

theorem reverse_toList (denotes : Option Char) : denotes.toList.reverse = denotes.toList := by
  cases denotes <;> rfl

theorem quoted_of_readText {start : ℕ} {s : String} {r : Rest} (acc : List Char) (p : Position)
    (h : readText quote start acc p text = .ok (s, r)) : ∃ cs value, text = cs ++ quote :: r.chars ∧
      IsQuoted quote r.chars cs value ∧ s = String.ofList (acc.reverse ++ value) ∧
      r.position = p.advance (cs ++ [quote]) := by
  fun_induction readText quote start acc p text with
  | case1 => cases h
  | case2 acc p cs =>
    cases h
    exact ⟨[], [], rfl, .nil, by simp, rfl⟩
  | case3 => cases h
  | case4 => cases h
  | case5 acc p cs e he _ _ ih =>
    obtain ⟨escape, rest, rfl, hwidth, hescape⟩ := exists_escape_of_read he
    rw [hwidth, List.take_left, List.drop_left] at ih
    rw [hwidth, List.take_left, List.drop_left] at h
    obtain ⟨cs, value, rfl, hquoted, rfl, hposition⟩ := ih h
    refine ⟨'\\' :: (escape ++ cs), e.denotes.toList ++ value, by simp, .escape hescape hquoted, ?_, ?_⟩
    · rw [List.reverse_append, reverse_toList, List.append_assoc]
    · rw [hposition, Position.advance_append]
      simp [Position.advance_append]
  | case6 acc p c cs hquote hfeed hslash ih =>
    obtain ⟨cs', value, rfl, hquoted, rfl, hposition⟩ := ih h
    exact ⟨c :: cs', c :: value, rfl, .plain hquote hfeed hslash hquoted, by simp, hposition⟩

theorem IsQuoted.readText_eq {start : ℕ} {value : List Char} (hquote : IsQuote quote)
    (h : IsQuoted quote rest cs value) : ∀ acc p, readText quote start acc p (cs ++ quote :: rest) =
      .ok (String.ofList (acc.reverse ++ value), ⟨rest, p.advance (cs ++ [quote])⟩) := by
  have hslash : '\\' ≠ quote := by rcases hquote with rfl | rfl <;> decide
  induction h with
  | nil =>
    intro acc p
    rw [List.nil_append, readText, if_pos rfl, List.append_nil]
    rfl
  | plain hc hfeed hplain _ ih =>
    intro acc p
    rw [List.cons_append, readText, if_neg hc, if_neg hfeed, if_neg hplain, ih]
    simp
  | @escape escape cs value denotes hescape _ ih =>
    intro acc p
    rw [List.cons_append, List.append_assoc, readText, if_neg hslash, if_neg (by decide), if_pos rfl,
      hescape.read_eq]
    dsimp only
    rw [List.take_left, List.drop_left, ih, List.reverse_append, reverse_toList]
    simp [Position.advance_append]

/-- **A text between quotes** is read when it has the form of one, and its value is what it denotes. -/
theorem readText_eq_ok_iff {start : ℕ} {p : Position} {s : String} {r : Rest} (hquote : IsQuote quote) :
    readText quote start [] p text = .ok (s, r) ↔ ∃ cs value, text = cs ++ quote :: r.chars ∧
      IsQuoted quote r.chars cs value ∧ s = String.ofList value ∧ r.position = p.advance (cs ++ [quote]) := by
  constructor
  · exact quoted_of_readText [] p
  · obtain ⟨chars, position⟩ := r
    rintro ⟨cs, value, rfl, h, rfl, rfl⟩
    exact h.readText_eq hquote [] p

end Stasis.Script
