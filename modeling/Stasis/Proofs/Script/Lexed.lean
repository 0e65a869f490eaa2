import Mathlib
import Stasis.Script.Lexer
import Stasis.Proofs.Script.Spelled

/-!
# Where the tokens of a script stand

Reading tokens takes a script apart: into the tokens' lexemes, in order, and gaps between them.

* `Rest.IsBehind`: a reader has taken a lexeme and stands behind it.
* `Token.IsLocated`: the span of a token is that of a non-empty part of the script.
* `Located`: tokens that are located, each before the next.
* `located_of_lex`: the tokens of every script are.
-/

namespace Stasis.Script

open Stasis.Text

variable {p : Position} {cs lexeme : List Char} {rest : Rest}

/-! ## Positions -/

@[simp] theorem Position.offset_step (p : Position) (c : Char) :
    (p.step c).offset = p.offset + c.utf8Size := by
  unfold step
  split <;> rfl

@[simp] theorem Position.offset_advance (p : Position) (cs : List Char) :
    (p.advance cs).offset = p.offset + byteLength cs := by
  induction cs generalizing p with
  | nil => rfl
  | cons c cs ih => rw [advance_cons, ih, offset_step, byteLength_cons, Nat.add_assoc]

/-! ## Readers -/

/-- A reader that began at `p`, before `cs`, has taken the lexeme. -/
structure Rest.IsBehind (p : Position) (cs lexeme : List Char) (rest : Rest) : Prop where
  chars : cs = lexeme ++ rest.chars
  position : rest.position = p.advance lexeme

/-- A character that is taken stands before what is taken behind it. -/
theorem Rest.IsBehind.cons {c : Char} (h : rest.IsBehind (p.step c) cs lexeme) :
    rest.IsBehind p (c :: cs) (c :: lexeme) :=
  ⟨congrArg (c :: ·) h.chars, h.position⟩

/-- What is cut off by its length. -/
theorem isBehind_drop (p : Position) (cs : List Char) (n : ℕ) :
    Rest.IsBehind p cs (cs.take n) ⟨cs.drop n, p.advance (cs.take n)⟩ :=
  ⟨(List.take_append_drop n cs).symm, rfl⟩

theorem isBehind_of_prefix (p : Position) (h : lexeme <+: cs) :
    Rest.IsBehind p cs lexeme ⟨cs.drop lexeme.length, p.advance lexeme⟩ := by
  have hdrop := isBehind_drop p cs lexeme.length
  rwa [← List.prefix_iff_eq_take.mp h] at hdrop

/-- **A gap is a part of the script.** -/
theorem isBehind_of_skipGap {state : GapState} {seen newline : Bool}
    (h : skipGap state seen p cs = .ok (rest, newline)) : ∃ gap, rest.IsBehind p cs gap := by
  fun_induction skipGap state seen p cs
  -- a white character, or one of a comment
  case case1 ih | case4 ih | case7 ih | case8 ih | case11 ih =>
    obtain ⟨gap, hgap⟩ := ih h
    exact ⟨_, hgap.cons⟩
  -- the two characters that begin or end a comment
  case case2 ih | case3 ih | case10 ih =>
    obtain ⟨gap, hgap⟩ := ih h
    exact ⟨_, hgap.cons.cons⟩
  -- the end of the gap
  case case5 | case6 | case9 =>
    cases h
    exact ⟨[], rfl, rfl⟩
  case case12 => cases h

/-- **A quoted text is a part of the script**, up to its closing quote. -/
theorem isBehind_of_readText {quote : Char} {start : ℕ} {acc : List Char} {value : String}
    (hquote : IsQuote quote) (h : readText quote start acc p cs = .ok (value, rest)) :
    ∃ text, ToQuote quote text ∧ rest.IsBehind p cs text := by
  fun_induction readText quote start acc p cs with
  | case1 | case3 | case4 => cases h
  | case2 =>
    cases h
    exact ⟨[_], .close, rfl, rfl⟩
  | case5 acc p cs e he _ _ ih =>
    obtain ⟨text, htext, hbehind⟩ := ih h
    refine ⟨'\\' :: (cs.take e.width ++ text), toQuote_of_readEscape hquote he htext, ?_, ?_⟩
    · rw [List.cons_append, List.append_assoc, ← hbehind.chars, List.take_append_drop]
    · rw [hbehind.position, Position.advance_cons, Position.advance_append]
  | case6 acc p c cs hclose _ hslash ih =>
    obtain ⟨text, htext, hbehind⟩ := ih h
    exact ⟨_, .plain hclose hslash htext, hbehind.cons⟩

theorem isPrefix_fractionLexeme (cs : List Char) : fractionLexeme cs <+: cs := by
  unfold fractionLexeme
  split
  · exact (List.prefix_cons_inj _).mpr (List.takeWhile_prefix _)
  · exact List.nil_prefix

theorem isPrefix_exponentLexeme (cs : List Char) : exponentLexeme cs <+: cs := by
  unfold exponentLexeme
  split
  · exact List.nil_prefix
  · next c cs =>
    split
    · extract_lets sign ds
      split
      · exact List.nil_prefix
      · have hsign : sign ++ cs.drop sign.length = cs :=
          List.prefix_iff_eq_append.mp (List.take_prefix _ _)
        have hds : sign ++ ds <+: sign ++ cs.drop sign.length :=
          (List.prefix_append_right_inj sign).mpr (List.takeWhile_prefix _)
        rw [hsign] at hds
        exact (List.prefix_cons_inj c).mpr hds
    · exact List.nil_prefix

/-- A run, then what stands behind it, is a part of the whole. -/
theorem prefix_append_of_drop {run more : List Char} (hrun : run <+: cs)
    (hmore : more <+: cs.drop run.length) : run ++ more <+: cs := by
  have hwhole : run ++ more <+: run ++ cs.drop run.length :=
    (List.prefix_append_right_inj run).mpr hmore
  rwa [List.prefix_iff_eq_append.mp hrun] at hwhole

/-- The kind is that of a number. -/
def TokenKind.IsNumeric : TokenKind → Prop
  | .number _ | .bigint _ => True
  | _ => False

/-- **A number is a part of the script.** -/
theorem isBehind_of_readNumber {kind : TokenKind} (hne : cs ≠ [])
    (h : readNumber p cs = .ok (kind, rest)) :
    kind.IsNumeric ∧ ∃ lexeme, lexeme ≠ [] ∧ (∀ c ∈ lexeme, isNumberChar c = true) ∧
      rest.IsBehind p cs lexeme := by
  unfold readNumber at h
  extract_lets here base body based big ds whole afterWhole fraction exponent lexeme plain at h
  split at h
  -- a number that announces its base
  · next hbase =>
    split at h
    · cases h
    · obtain ⟨hkind, hrest⟩ := Prod.mk.inj (Except.ok.inj h)
      rw [← hkind, ← hrest]
      refine ⟨?_, _, ?_, isNumberChar_of_announced hbase, isBehind_drop p cs (2 + body.length)⟩
      · split <;> trivial
      · simp [hne]
  · split at h
    -- a big integer, with its suffix
    · next hsuffix =>
      split at h
      · cases h
      · obtain ⟨hkind, hrest⟩ := Prod.mk.inj (Except.ok.inj h)
        have hdrop := isBehind_drop p cs (whole.length + 1)
        rw [← List.drop_drop] at hdrop
        rw [← hkind, ← hrest]
        exact ⟨trivial, _, by simp [hne], isNumberChar_of_suffix hsuffix, hdrop⟩
    -- a double
    · split at h
      · cases h
      · next x hx =>
        split at h
        · cases h
        · obtain ⟨hkind, hrest⟩ := Prod.mk.inj (Except.ok.inj h)
          have hwhole : whole <+: cs := List.takeWhile_prefix _
          have hfraction : whole ++ fraction <+: cs :=
            prefix_append_of_drop hwhole (isPrefix_fractionLexeme afterWhole)
          have hexponent : exponent <+: cs.drop (whole ++ fraction).length := by
            rw [List.length_append, ← List.drop_drop]
            exact isPrefix_exponentLexeme _
          have hlexeme : lexeme ≠ [] := by
            intro hnil
            rw [hnil] at hx
            cases hx
          have hchars : ∀ c ∈ lexeme, isNumberChar c = true :=
            List.forall_mem_append.mpr ⟨List.forall_mem_append.mpr
              ⟨fun c => isNumberChar_of_mem_digits, fun c => isNumberChar_of_mem_fractionLexeme⟩,
              fun c => isNumberChar_of_mem_exponentLexeme⟩
          rw [← hkind, ← hrest]
          exact ⟨trivial, _, hlexeme, hchars,
            isBehind_of_prefix p (prefix_append_of_drop hfraction hexponent)⟩

/-- What a token of a kind can look like: a mark like itself, a text in quotes, names and numbers
without brackets and quotes; the end is no token of the text. -/
def TokenKind.Spells (lexeme : List Char) : TokenKind → Prop
  | .eof => False
  | .punct m => lexeme = m.text.toList
  | .ident _ | .number _ | .bigint _ => lexeme ≠ [] ∧ ∀ c ∈ lexeme, c ∉ delimiters
  | .text _ => ∃ quote body, IsQuote quote ∧ ToQuote quote body ∧ lexeme = quote :: body

theorem TokenKind.Spells.ne_nil {kind : TokenKind} (h : kind.Spells lexeme) : lexeme ≠ [] := by
  cases kind with
  | eof => exact h.elim
  | punct m =>
    rw [show lexeme = m.text.toList from h]
    cases m <;> decide
  | text =>
    obtain ⟨quote, body, -, -, rfl⟩ := h
    exact List.cons_ne_nil quote body
  | _ => exact h.1

theorem TokenKind.IsNumeric.spells {kind : TokenKind} (h : kind.IsNumeric) (hne : lexeme ≠ [])
    (hchars : ∀ c ∈ lexeme, isNumberChar c = true) : kind.Spells lexeme := by
  have hplain : lexeme ≠ [] ∧ ∀ c ∈ lexeme, c ∉ delimiters :=
    ⟨hne, fun c hc => notMem_delimiters_of_isNumberChar (hchars c hc)⟩
  cases kind <;> first | exact hplain | exact h.elim

/-- **A token is a part of the script.** -/
theorem isBehind_of_readToken {c : Char} {kind : TokenKind}
    (h : readToken p c cs = .ok (kind, rest)) :
    ∃ lexeme, kind.Spells lexeme ∧ rest.IsBehind p (c :: cs) lexeme := by
  unfold readToken at h
  split at h
  -- a name
  · next hstart =>
    cases h
    refine ⟨_, ⟨?_, fun c hc => notMem_delimiters_of_isNamePart (List.mem_takeWhile_imp hc)⟩,
      isBehind_of_prefix p (List.takeWhile_prefix isNamePart)⟩
    have hpart : isNamePart c = true := by rw [isNamePart, hstart, Bool.true_or]
    rw [List.takeWhile_cons_of_pos hpart]
    exact List.cons_ne_nil _ _
  · split at h
    · obtain ⟨hkind, lexeme, hne, hchars, hrest⟩ :=
        isBehind_of_readNumber (List.cons_ne_nil c cs) h
      exact ⟨lexeme, hkind.spells hne hchars, hrest⟩
    · split at h
      -- a quoted text
      · next hquote =>
        cases htext : readText c p.offset [] (p.step c) cs with
        | error => rw [htext] at h; cases h
        | ok read =>
          rw [htext] at h
          cases h
          obtain ⟨text, hclosed, hrest⟩ := isBehind_of_readText hquote htext
          exact ⟨_, ⟨c, text, hquote, hclosed, rfl⟩, hrest.cons⟩
      · split at h
        · cases h
        · split at h
          -- a mark
          · next m hm =>
            cases h
            have hprefix := List.find?_some hm
            exact ⟨_, rfl, isBehind_of_prefix p (List.isPrefixOf_iff_prefix.mp hprefix)⟩
          · cases h

/-! ## All tokens -/

/-- The span of the token is that of its lexeme in the script. -/
def Token.IsLocated (source : List Char) (t : Token) : Prop :=
  ∃ before lexeme after, source = before ++ lexeme ++ after ∧ t.kind.Spells lexeme ∧
    t.span.start = byteLength before ∧ t.span.stop = byteLength before + byteLength lexeme

/-- Tokens of a script, each before the next. -/
structure Located (source : List Char) (tokens : List Token) : Prop where
  located : ∀ t ∈ tokens, t.IsLocated source
  ordered : tokens.Pairwise fun t next => t.span.stop ≤ next.span.start

/-- One more token behind all others. -/
theorem Located.concat {source : List Char} {tokens : List Token} {t : Token}
    (h : Located source tokens) (ht : t.IsLocated source)
    (hbehind : ∀ u ∈ tokens, u.span.stop ≤ t.span.start) : Located source (tokens ++ [t]) where
  located := by
    intro u hu
    rcases List.mem_append.mp hu with hu | hu
    · exact h.located u hu
    · rwa [List.mem_singleton.mp hu]
  ordered := by
    refine List.pairwise_append.mpr ⟨h.ordered, List.pairwise_singleton _ t, ?_⟩
    intro u hu v hv
    rw [List.mem_singleton.mp hv]
    exact hbehind u hu

theorem byteLength_pos (h : lexeme ≠ []) : 0 < byteLength lexeme := by
  obtain ⟨c, cs, rfl⟩ := List.exists_cons_of_ne_nil h
  have hc := c.utf8Size_pos
  rw [byteLength_cons]
  omega

namespace Token.IsLocated

variable {source : List Char} {t : Token}

theorem isBoundary_start (h : t.IsLocated source) : IsBoundary source t.span.start := by
  obtain ⟨before, lexeme, after, hsource, -, hstart, -⟩ := h
  exact ⟨before, lexeme ++ after, by rw [hsource, List.append_assoc], hstart.symm⟩

theorem isBoundary_stop (h : t.IsLocated source) : IsBoundary source t.span.stop := by
  obtain ⟨before, lexeme, after, hsource, -, -, hstop⟩ := h
  exact ⟨before ++ lexeme, after, hsource, by rw [byteLength_append, hstop]⟩

theorem start_lt_stop (h : t.IsLocated source) : t.span.start < t.span.stop := by
  obtain ⟨before, lexeme, after, -, hspells, hstart, hstop⟩ := h
  have hpos := byteLength_pos hspells.ne_nil
  omega

/-- A mark takes as many bytes as it has. -/
theorem stop_of_isPunct {m : Punctuator} (h : t.IsLocated source) (hm : t.kind = .punct m) :
    t.span.stop = t.span.start + byteLength m.text.toList := by
  obtain ⟨before, lexeme, after, -, hspells, hstart, hstop⟩ := h
  rw [hm] at hspells
  rw [hstart, hstop, show lexeme = m.text.toList from hspells]

end Token.IsLocated

/-- Tokens that follow one another in a range take at least a byte each. -/
theorem add_length_le_of_pairwise {tokens : List Token} {lo hi : ℕ} (hle : lo ≤ hi)
    (hplaced : ∀ t ∈ tokens, lo ≤ t.span.start ∧ t.span.start < t.span.stop ∧ t.span.stop ≤ hi)
    (hordered : tokens.Pairwise fun t next => t.span.stop ≤ next.span.start) :
    lo + tokens.length ≤ hi := by
  induction tokens generalizing lo with
  | nil => exact hle
  | cons t more ih =>
    obtain ⟨hlo, hlt, hhi⟩ := hplaced t List.mem_cons_self
    obtain ⟨hnext, hordered⟩ := List.pairwise_cons.mp hordered
    have hmore := ih hhi (fun u hu => ⟨hnext u hu, (hplaced u (List.mem_cons_of_mem t hu)).2⟩) hordered
    rw [List.length_cons]
    omega

/-- A script has no more tokens than bytes. -/
theorem Located.length_le {source : List Char} {tokens : List Token} (h : Located source tokens) :
    tokens.length ≤ byteLength source := by
  have hplaced : ∀ t ∈ tokens, 0 ≤ t.span.start ∧ t.span.start < t.span.stop ∧
      t.span.stop ≤ byteLength source := fun t ht =>
    ⟨Nat.zero_le _, (h.located t ht).start_lt_stop, (h.located t ht).isBoundary_stop.le⟩
  simpa using add_length_le_of_pairwise (Nat.zero_le _) hplaced h.ordered

/-- Reading on behind tokens that are located. -/
theorem located_of_readTokens {source before : List Char} {steps : ℕ} {acc tokens : List Token}
    {stop : Token} (hsource : source = before ++ cs) (hp : p.offset = byteLength before)
    (hacc : Located source acc.reverse) (hbefore : ∀ t ∈ acc, t.span.stop ≤ p.offset)
    (h : readTokens steps acc p cs = .ok (tokens, stop)) :
    Located source tokens ∧ stop.kind = .eof := by
  induction steps generalizing acc p cs before with
  | zero =>
    cases h
    exact ⟨hacc, rfl⟩
  | succ steps ih =>
    rw [readTokens] at h
    cases hgap : skipGap .between false p cs with
    | error => rw [hgap] at h; cases h
    | ok gone =>
      obtain ⟨⟨chars, q⟩, newline⟩ := gone
      rw [hgap] at h
      obtain ⟨gap, rfl, rfl⟩ := isBehind_of_skipGap hgap
      cases chars with
      | nil =>
        cases h
        exact ⟨hacc, rfl⟩
      | cons c more =>
        simp only [bind, Except.bind] at h
        cases htoken : readToken (p.advance gap) c more with
        | error => rw [htoken] at h; cases h
        | ok read =>
          obtain ⟨kind, chars, q⟩ := read
          rw [htoken] at h
          obtain ⟨lexeme, hspells, hchars, rfl⟩ := isBehind_of_readToken htoken
          have hsource : source = before ++ gap ++ lexeme ++ chars := by
            rw [hsource, hchars]
            simp only [List.append_assoc]
          -- the new token stands behind the gap, and all others stand before it
          refine ih hsource ?_ ?_ ?_ h
          · simp only [Position.offset_advance, byteLength_append, hp]
          · rw [List.reverse_cons]
            refine hacc.concat ⟨before ++ gap, lexeme, chars, hsource, hspells, ?_, ?_⟩ ?_
            · simp [Position.spanTo, hp]
            · simp [Position.spanTo, hp]
            · intro t ht
              exact (hbefore t (List.mem_reverse.mp ht)).trans (by simp [Position.spanTo])
          · refine List.forall_mem_cons.mpr ⟨le_rfl, fun t ht => (hbefore t ht).trans ?_⟩
            simp only [Position.offset_advance]
            omega

/-- **The tokens of a script are located in it, each before the next.** -/
theorem located_of_lex {source : String} {tokens : List Token} {stop : Token}
    (h : lex source = .ok (tokens, stop)) : Located source.toList tokens ∧ stop.kind = .eof :=
  located_of_readTokens (List.nil_append _).symm rfl ⟨by simp, List.Pairwise.nil⟩ (by simp) h

end Stasis.Script
