import Mathlib
import Stasis.Proofs.Script.Escapes
import Stasis.Proofs.Text
import Stasis.Text.Quoted

/-!
# Lexemes that are read as their tokens

A text that is put together from lexemes is read as the tokens that they belong to, as long as no lexeme
goes on in what stands behind it.

* `readText_quoted`: a quoted text reads back, whatever its characters.
* `TokenKind.IsTakenAt`: a lexeme is taken as one token of a kind, and reading goes on behind it.
* `isTakenAt_name`, `isTakenAt_text`, `isTakenAt_digits`: names, quoted texts and whole numbers.
* `Tokenizes`: a text that is read as tokens of some kinds.
* `exists_lex`: the tokens of such a text.
* `tokenize_quote`: a quoted text by itself is one token, and nothing else.
-/

namespace Stasis.Script

open Stasis.Text

variable {c : Char} {cs ds lexeme rest : List Char} {kind : TokenKind} {kinds : List TokenKind} {n : ℕ}

/-! ## Quoted texts -/

theorem charOfCode_toNat (c : Char) : charOfCode c.toNat = c := by
  rw [charOfCode, if_pos (show c.toNat.isValidChar from c.valid), Char.ofNat_toNat]

/-- A character between quotes stands for itself, or an escape stands for it. -/
theorem quotedChar_eq (c : Char) :
    (quotedChar c = [c] ∧ c ≠ '"' ∧ c ≠ '\n' ∧ c ≠ '\\') ∨
      ∃ escape, quotedChar c = '\\' :: escape ∧ ∀ rest, IsEscape escape rest (some c) := by
  by_cases hself : c ∈ ['"', '\\']
  · simp only [List.mem_cons, List.not_mem_nil, or_false] at hself
    rcases hself with rfl | rfl <;> exact .inr ⟨_, rfl, fun _ => .self (by decide) (by decide)⟩
  by_cases hletter : c ∈ ['\x08', '\t', '\n', '\x0c', '\r']
  · simp only [List.mem_cons, List.not_mem_nil, or_false] at hletter
    rcases hletter with rfl | rfl | rfl | rfl | rfl <;> exact .inr ⟨_, rfl, fun _ => .letter (by decide)⟩
  simp only [List.mem_cons, List.not_mem_nil, or_false, not_or] at hself hletter
  obtain ⟨hquote, hslash⟩ := hself
  obtain ⟨hb, ht, hn, hf, hr⟩ := hletter
  unfold quotedChar
  rw [if_neg hquote, if_neg hslash, if_neg hb, if_neg ht, if_neg hn, if_neg hf, if_neg hr]
  by_cases hcontrol : c.toNat < 0x20
  · rw [if_pos hcontrol]
    have hdigits : ∀ n < 0x20,
        Number.digits? 16 ['0', '0', hexDigit (n / 16), hexDigit n] = some n := by
      decide +kernel
    refine .inr ⟨_, rfl, fun rest => ?_⟩
    have hunit : IsUnicodeEscape ['0', '0', hexDigit (c.toNat / 16), hexDigit c.toNat] rest c.toNat :=
      .unit rfl (.digits (hdigits _ hcontrol)) fun hhigh => absurd hhigh.1 (by omega)
    have hescape := IsEscape.unicode hunit
    rwa [charOfCode_toNat] at hescape
  · rw [if_neg hcontrol]
    exact .inl ⟨rfl, hquote, hn, hslash⟩

theorem isQuoted_quotedChars (cs rest : List Char) : IsQuoted '"' rest (cs.flatMap quotedChar) cs := by
  induction cs with
  | nil => exact .nil
  | cons c cs ih =>
    rw [List.flatMap_cons]
    obtain ⟨hc, hquote, hfeed, hslash⟩ | ⟨escape, hc, hescape⟩ := quotedChar_eq c
    · rw [hc]
      exact .plain hquote hfeed hslash ih
    · rw [hc]
      exact .escape (hescape _) ih

/-- **A quoted text reads back**, whatever its characters. -/
theorem readText_quoted (cs rest : List Char) (start : ℕ) (p : Position) :
    readText '"' start [] p (cs.flatMap quotedChar ++ '"' :: rest) =
      .ok (String.ofList cs, ⟨rest, p.advance (cs.flatMap quotedChar ++ ['"'])⟩) :=
  (isQuoted_quotedChars cs rest).readText_eq (.inl rfl) [] p

/-! ## Single tokens -/

/-- Reading tokens at the lexeme, before `rest`, takes one token of this kind and goes on at `rest`. -/
structure TokenKind.IsTakenAt (kind : TokenKind) (lexeme rest : List Char) : Prop where
  ne_nil : lexeme ≠ []
  takes : ∀ (steps : ℕ) (acc : List Token) (p : Position), ∃ t q, t.kind = kind ∧
    readTokens (steps + 1) acc p (lexeme ++ rest) = readTokens steps (t :: acc) q rest

/-- A token that no gap comes before is taken by its reader, from where it begins. -/
theorem readTokens_of_readToken {steps : ℕ} {acc : List Token} {p q : Position} (hblank : isBlank c = false)
    (hslash : c ≠ '/') (h : readToken p c cs = .ok (kind, ⟨rest, q⟩)) :
    readTokens (steps + 1) acc p (c :: cs) =
      readTokens steps (⟨kind, p.spanTo q, false⟩ :: acc) q rest := by
  have hgap : skipGap .between false p (c :: cs) = .ok (⟨c :: cs, p⟩, false) := by
    rw [skipGap.eq_4, hblank, if_neg Bool.false_ne_true]
    · rintro rfl
      cases hblank
    · exact fun _ hc => absurd hc hslash
    · exact fun _ hc => absurd hc hslash
  rw [readTokens, hgap]
  simp only [bind, Except.bind, h]

theorem isTakenAt_of_readToken (hblank : isBlank c = false) (hslash : c ≠ '/')
    (h : ∀ p, ∃ q, readToken p c (cs ++ rest) = .ok (kind, ⟨rest, q⟩)) : kind.IsTakenAt (c :: cs) rest where
  ne_nil := List.cons_ne_nil c cs
  takes := fun steps acc p => by
    obtain ⟨q, hq⟩ := h p
    exact ⟨⟨kind, p.spanTo q, false⟩, q, rfl, readTokens_of_readToken hblank hslash hq⟩

/-- White space before a lexeme does not matter. -/
theorem TokenKind.IsTakenAt.behind_space (h : kind.IsTakenAt lexeme rest) :
    kind.IsTakenAt (' ' :: lexeme) rest where
  ne_nil := List.cons_ne_nil ' ' lexeme
  takes := fun steps acc p => h.takes steps acc (p.step ' ')

/-- A name: a letter, `_` or `$`, and what names go on with. -/
def IsName (name : String) : Prop :=
  name.toList.head?.any isNameStart = true ∧ ∀ c ∈ name.toList, isNamePart c = true

instance (name : String) : Decidable (IsName name) := inferInstanceAs (Decidable (_ ∧ _))

/-- The characters that are white space. -/
def blanks : List Char :=
  ['\t', '\n', '\x0b', '\x0c', '\r', ' ', '\u0085', '\u00a0', '\u1680', '\u2000', '\u2001', '\u2002',
   '\u2003', '\u2004', '\u2005', '\u2006', '\u2007', '\u2008', '\u2009', '\u200a', '\u2028', '\u2029',
   '\u202f', '\u205f', '\u3000']

theorem mem_blanks_of_isBlank (h : isBlank c = true) : c ∈ blanks := by
  have hcode : c.toNat ∈ blanks.map Char.toNat := by
    simp only [isBlank, Bool.or_eq_true, Bool.and_eq_true, decide_eq_true_eq, beq_iff_eq] at h
    simp only [blanks, List.map_cons, List.map_nil, List.mem_cons, List.not_mem_nil, or_false]
    simp only [Char.reduceToNat]
    omega
  obtain ⟨d, hd, hdc⟩ := List.mem_map.mp hcode
  rwa [← Char.toNat_inj.mp hdc]

/-- No name begins with white space. -/
theorem isBlank_of_isNameStart (h : isNameStart c = true) : isBlank c = false := by
  have hnone : blanks.all (fun c => !isNameStart c) = true := by decide +kernel
  rw [Bool.eq_false_iff]
  intro hblank
  have hother := List.all_eq_true.mp hnone c (mem_blanks_of_isBlank hblank)
  rw [h] at hother
  cases hother

/-- No name goes on at the front of a text. -/
def EndsName (rest : List Char) : Prop := ∀ c ∈ rest.head?, isNamePart c = false

theorem isTakenAt_name {name : String} (hname : IsName name) (hrest : EndsName rest) :
    (TokenKind.ident name).IsTakenAt name.toList rest := by
  obtain ⟨hfirst, hparts⟩ := hname
  cases hcs : name.toList with
  | nil => rw [hcs] at hfirst; cases hfirst
  | cons c cs =>
    rw [hcs] at hfirst hparts
    have hc : isNameStart c = true := hfirst
    have hrun : (c :: (cs ++ rest)).takeWhile isNamePart = c :: cs := takeWhile_append_of_ends hparts hrest
    refine isTakenAt_of_readToken (isBlank_of_isNameStart hc) ?_ fun p => ⟨p.advance (c :: cs), ?_⟩
    · rintro rfl
      cases hc
    · rw [readToken, if_pos hc]
      dsimp only
      rw [hrun, ← hcs, String.ofList_toList, hcs, ← List.cons_append, List.drop_left]

/-- A quoted text is read up to the quote that closes it. -/
theorem readToken_quoted (s : String) (rest : List Char) (p : Position) :
    readToken p '"' (s.toList.flatMap quotedChar ++ '"' :: rest) =
      .ok (.text s, ⟨rest, p.advance (quote s).toList⟩) := by
  have hread := readText_quoted s.toList rest p.offset (p.step '"')
  have hnumber : startsNumber ('"' :: (s.toList.flatMap quotedChar ++ '"' :: rest)) = false := rfl
  rw [String.ofList_toList] at hread
  rw [readToken, if_neg (by decide), hnumber, if_neg Bool.false_ne_true, if_pos (.inl rfl), hread, quote,
    String.toList_ofList]
  rfl

/-- A quoted text is one token, with the text as its value. -/
theorem isTakenAt_text (s : String) (rest : List Char) :
    (TokenKind.text s).IsTakenAt (quote s).toList rest := by
  rw [quote, String.toList_ofList, quoted]
  refine isTakenAt_of_readToken rfl (by decide) fun p => ⟨p.advance (quote s).toList, ?_⟩
  rw [List.append_assoc]
  exact readToken_quoted s rest p

/-- The digits of a whole number are read as the nearest double. -/
theorem readDouble_digitsOf (n : ℕ) :
    Number.readDouble (Number.digitsOf n) = some (Number.nearest n 0) := by
  have hdigits : ∀ c ∈ Number.digitsOf n, c.isDigit = true := fun c => Number.isDigit_of_mem_digitsOf
  have hwhole : (Number.digitsOf n).takeWhile Char.isDigit = Number.digitsOf n :=
    List.takeWhile_eq_self_iff.mpr hdigits
  have hnothing : (Number.digitsOf n).dropWhile Char.isDigit = [] := List.dropWhile_eq_nil_iff.mpr hdigits
  have hmagnitude : Number.readMagnitude (Number.digitsOf n) = some (Number.nearest n 0) := by
    have hne : (Number.digitsOf n).isEmpty = false :=
      List.isEmpty_eq_false_iff.mpr (Number.digitsOf_ne_nil n)
    simp [Number.readMagnitude, hwhole, hnothing, hne, Number.readExponent, Number.decimalValue,
      Number.digits?_digitsOf]
  unfold Number.readDouble
  split
  · next h => exact absurd (hdigits '-' (h ▸ List.mem_cons_self)) (by decide)
  · next h => exact absurd (hdigits '+' (h ▸ List.mem_cons_self)) (by decide)
  · exact congrArg (Option.orElse · _) hmagnitude

/-- A second character that is a digit, or belongs to no name, announces no base. -/
theorem announcedBase_eq_ten (h : ∀ d ∈ cs.tail.head?, d.isDigit = true ∨ isNamePart d = false) :
    announcedBase cs = 10 := by
  unfold announcedBase
  split
  · next d more =>
    have hletter : ∀ letter ∈ ['x', 'X', 'o', 'O', 'b', 'B'], d ≠ letter := by
      have hall : ['x', 'X', 'o', 'O', 'b', 'B'].all (fun c => !c.isDigit && isNamePart c) = true := by
        decide
      rintro letter hletter rfl
      have hd := List.all_eq_true.mp hall d hletter
      rcases h d rfl with hdigit | hname <;> simp_all
    simp only [List.forall_mem_cons] at hletter
    obtain ⟨hx, hX, ho, hO, hb, hB, -⟩ := hletter
    rw [if_neg (not_or.mpr ⟨hx, hX⟩), if_neg (not_or.mpr ⟨ho, hO⟩), if_neg (not_or.mpr ⟨hb, hB⟩)]
  · rfl

/-- No number goes on at the front of a text. -/
def EndsNumber (rest : List Char) : Prop :=
  ∀ c ∈ rest.head?, isNamePart c = false ∧ c ≠ '.'

theorem EndsNumber.endsName (h : EndsNumber rest) : EndsName rest := fun c hc => (h c hc).1

theorem EndsNumber.head?_ne (h : EndsNumber rest) (hc : isNamePart c = true ∨ c = '.') :
    rest.head? ≠ some c := by
  intro hhead
  obtain ⟨hname, hpoint⟩ := h c hhead
  rcases hc with hc | hc
  · rw [hc] at hname
    cases hname
  · exact hpoint hc

/-- Names go on with digits, but do not begin with them. -/
theorem sorts_of_isDigit (h : c.isDigit = true) :
    isNamePart c = true ∧ isNameStart c = false ∧ isBlank c = false := by
  simp only [Char.isDigit, Bool.and_eq_true, decide_eq_true_eq] at h
  have hcode : 48 ≤ c.toNat ∧ c.toNat ≤ 57 := h
  rw [← Char.ofNat_toNat c]
  generalize c.toNat = n at hcode
  obtain ⟨hlo, hhi⟩ := hcode
  interval_cases n <;> decide

theorem EndsNumber.fractionLexeme (h : EndsNumber rest) : fractionLexeme rest = [] := by
  unfold Script.fractionLexeme
  split
  · exact absurd rfl (h.head?_ne (.inr rfl))
  · rfl

theorem EndsNumber.exponentLexeme (h : EndsNumber rest) : exponentLexeme rest = [] := by
  unfold Script.exponentLexeme
  split
  · rfl
  · next c cs =>
    refine if_neg ?_
    rintro (rfl | rfl)
    · exact h.head?_ne (.inl (by decide)) rfl
    · exact h.head?_ne (.inl (by decide)) rfl

/-- A run of digits that reads as a double is taken as that number. -/
theorem readNumber_digits {x : Float} (p : Position) (hne : ds ≠ []) (hds : ∀ c ∈ ds, c.isDigit = true)
    (hx : Number.readDouble ds = some x) (hrest : EndsNumber rest) :
    readNumber p (ds ++ rest) = .ok (.number x, ⟨rest, p.advance ds⟩) := by
  have hbase : announcedBase (ds ++ rest) = 10 := by
    refine announcedBase_eq_ten fun d hd => ?_
    obtain ⟨c, cs, rfl⟩ := List.exists_cons_of_ne_nil hne
    cases cs with
    | nil => exact .inr (hrest d hd).1
    | cons d' cs =>
      obtain rfl : d' = d := Option.some.inj hd
      exact .inl (hds d' (by simp))
  have hwhole : (ds ++ rest).takeWhile Char.isDigit = ds := by
    refine takeWhile_append_of_ends hds fun c hc => ?_
    rw [Bool.eq_false_iff]
    intro hdigit
    exact hrest.head?_ne (.inl (sorts_of_isDigit hdigit).1) hc
  have hname : rest.head?.any isNameStart = false := by
    cases hc : rest.head? with
    | none => rfl
    | some c => exact (Bool.or_eq_false_iff.mp (hrest c hc).1).1
  simp only [readNumber, hbase, hwhole, List.drop_left, hrest.head?_ne (c := 'n') (.inl (by decide)),
    hrest.fractionLexeme, hrest.exponentLexeme, List.length_nil, List.drop_zero, List.append_nil, hx, hname,
    ne_eq, not_true_eq_false, if_false, Bool.false_eq_true]

/-- The digits of a whole number are one token, with the nearest double as its value. -/
theorem isTakenAt_digits (n : ℕ) (hrest : EndsNumber rest) :
    (TokenKind.number (Number.nearest n 0)).IsTakenAt (Number.digitsOf n) rest := by
  have hdigits : ∀ c ∈ Number.digitsOf n, c.isDigit = true := fun c => Number.isDigit_of_mem_digitsOf
  have hread := fun p =>
    readNumber_digits p (Number.digitsOf_ne_nil n) hdigits (readDouble_digitsOf n) hrest
  obtain ⟨c, cs, hcs⟩ := List.exists_cons_of_ne_nil (Number.digitsOf_ne_nil n)
  rw [hcs] at hdigits hread ⊢
  have hc : c.isDigit = true := hdigits c List.mem_cons_self
  obtain ⟨-, hstart, hblank⟩ := sorts_of_isDigit hc
  have hpoint : c ≠ '.' := by rintro rfl; cases hc
  have hnumber : startsNumber (c :: (cs ++ rest)) = true := by
    unfold startsNumber
    split
    · next h => exact absurd (List.cons.inj h).1 hpoint
    · next h => rwa [← (List.cons.inj h).1]
    · next h => cases h
  refine isTakenAt_of_readToken hblank (by rintro rfl; cases hc) fun p => ⟨p.advance (c :: cs), ?_⟩
  rw [readToken, hstart, if_neg Bool.false_ne_true, if_pos hnumber, ← List.cons_append, hread]

/-- Brackets and commas are taken as they stand. -/
theorem isTakenAt_mark {m : Punctuator}
    (hm : m ∈ [.openBracket, .closeBracket, .openParen, .closeParen, .comma, .dots]) (rest : List Char) :
    (TokenKind.punct m).IsTakenAt m.text.toList rest := by
  simp only [List.mem_cons, List.not_mem_nil, or_false] at hm
  rcases hm with rfl | rfl | rfl | rfl | rfl | rfl <;>
    exact ⟨by decide, fun steps acc p => ⟨_, _, rfl, rfl⟩⟩

/-- A point before a name is no part of a number. -/
theorem isTakenAt_dot {name : String} (hname : IsName name) (rest : List Char) :
    (TokenKind.punct .dot).IsTakenAt ['.'] (name.toList ++ rest) := by
  obtain ⟨hfirst, -⟩ := hname
  cases hcs : name.toList with
  | nil => rw [hcs] at hfirst; cases hfirst
  | cons c cs =>
    rw [hcs] at hfirst
    have hc : isNameStart c = true := hfirst
    have hdigit : c.isDigit = false := by
      rw [Bool.eq_false_iff]
      intro hdigit
      rw [(sorts_of_isDigit hdigit).2.1] at hc
      cases hc
    have hdot : ('.' == c) = false := by
      rw [beq_eq_false_iff_ne]
      rintro rfl
      cases hc
    have hmark : punctuatorAt? ('.' :: c :: (cs ++ rest)) = some .dot := by
      simp [punctuatorAt?, Punctuator.all, Punctuator.text, List.isPrefixOf, List.find?, hdot]
    refine isTakenAt_of_readToken rfl (by decide) fun p => ⟨p.step '.', ?_⟩
    rw [List.nil_append, List.cons_append, readToken, if_neg (by decide), if_neg, if_neg (by decide),
      if_neg (by decide), hmark]
    · rfl
    · rw [startsNumber, hdigit]
      exact Bool.false_ne_true

/-! ## Texts -/

/-- The characters are read, from anywhere, as tokens of these kinds. -/
def Tokenizes (cs : List Char) (kinds : List TokenKind) : Prop :=
  ∀ (steps : ℕ) (acc : List Token) (p : Position), cs.length < steps →
    ∃ ts stop, readTokens steps acc p cs = .ok (acc.reverse ++ ts, stop) ∧
      ts.map Token.kind = kinds ∧ stop.kind = .eof

theorem tokenizes_nil : Tokenizes [] [] := by
  intro steps acc p hsteps
  obtain ⟨steps, rfl⟩ := Nat.exists_eq_succ_of_ne_zero hsteps.ne'
  exact ⟨[], _, by rw [List.append_nil]; rfl, rfl, rfl⟩

/-- **One more token in front.** -/
theorem Tokenizes.cons (h : Tokenizes rest kinds) (htaken : kind.IsTakenAt lexeme rest) :
    Tokenizes (lexeme ++ rest) (kind :: kinds) := by
  intro steps acc p hsteps
  obtain ⟨steps, rfl⟩ := Nat.exists_eq_succ_of_ne_zero (Nat.ne_zero_of_lt hsteps)
  obtain ⟨t, q, ht, htake⟩ := htaken.takes steps acc p
  have hpos := List.length_pos_iff.mpr htaken.ne_nil
  rw [List.length_append] at hsteps
  obtain ⟨ts, stop, hts, hkinds, hstop⟩ := h steps (t :: acc) q (by omega)
  refine ⟨t :: ts, stop, ?_, by rw [List.map_cons, ht, hkinds], hstop⟩
  rw [htake, hts, List.reverse_cons, List.append_assoc, List.singleton_append]

/-- **The tokens of a text** that is put together from their lexemes. -/
theorem exists_lex {source : String} (h : Tokenizes source.toList kinds) :
    ∃ ts stop, lex source = .ok (ts, stop) ∧ ts.map Token.kind = kinds ∧ stop.kind = .eof := by
  have hlength : source.toList.length < source.length + 1 := by
    rw [String.length_toList]
    omega
  exact h _ [] .first hlength

/-! ## A quoted text by itself -/

/-- Behind characters none of which is a line feed the reader is in the same line. -/
theorem advance_of_notMem (h : '\n' ∉ cs) (p : Position) :
    p.advance cs = { p with offset := p.offset + byteLength cs } := by
  induction cs generalizing p with
  | nil => rfl
  | cons c cs ih =>
    obtain ⟨hc, hcs⟩ := not_or.mp (List.mem_cons.not.mp h)
    rw [Position.advance_cons, ih hcs, Position.step, if_neg (Ne.symm hc), byteLength_cons, Nat.add_assoc]

theorem hexDigit_ne_newline (n : ℕ) : '\n' ≠ hexDigit n := by
  have hall : ∀ d < 16, '\n' ≠ Nat.digitChar d := by decide
  exact hall (n % 16) (Nat.mod_lt n (by decide))

/-- Line feeds are escaped between quotes. -/
theorem newline_notMem_quote (s : String) : '\n' ∉ (quote s).toList := by
  have hchar (c : Char) : '\n' ∉ quotedChar c := by
    unfold quotedChar
    split_ifs with hquote hslash hb ht hn
    any_goals decide
    · simp [hexDigit_ne_newline]
    · exact fun h => hn (List.mem_singleton.mp h).symm
  rw [quote, String.toList_ofList, quoted, List.mem_cons, List.mem_append, List.mem_flatMap,
    List.mem_singleton]
  rintro (h | ⟨c, -, hc⟩ | h)
  · cases h
  · exact hchar c hc
  · cases h

/-- **A quoted text is one token**, which stands for the text and takes up the whole of the script, and
behind it is the end. -/
theorem tokenize_quote (s label : String) : tokenize (quote s) label =
    .ok [⟨.text s, ⟨0, byteLength (quote s).toList, 1, 1⟩, false⟩,
      ⟨.eof, ⟨byteLength (quote s).toList, byteLength (quote s).toList, 1,
        .ofNat (byteLength (quote s).toList) + 1⟩, false⟩] := by
  have hlength : (quote s).length = (s.toList.flatMap quotedChar).length + 1 + 1 := by
    rw [← String.length_toList, quote, String.toList_ofList, quoted, List.length_cons, List.length_append,
      List.length_singleton]
  have hchars : (quote s).toList = '"' :: (s.toList.flatMap quotedChar ++ '"' :: []) := by
    rw [quote, String.toList_ofList, quoted]
  have hend := advance_of_notMem (newline_notMem_quote s) .first
  have hread := readToken_quoted s [] .first
  rw [tokenize, lex, hlength, hchars, readTokens_of_readToken rfl (by decide) hread, ← hchars, hend]
  simp [readTokens, skipGap, bind, Except.bind, pure, Except.pure, Position.spanTo, Position.columnAt,
    Position.first]

end Stasis.Script
