import Mathlib
import Stasis.Proofs.Script.Lexed

/-!
# Tokens and the gaps between them

Nothing of a script is lost between its tokens but white space and comments, and every token knows its
place: the bytes that it takes, its line and its column.

* `IsGap`: white space and comments.
* `skips_of_skipGap`: what is skipped before a token is a gap, and its line feeds are noticed.
* `spanOf`: the place of a part of a script.
* `Lexes`: a text that is made up of gaps and the lexemes of tokens.
* `lexes_of_readTokens`, `lexes_of_lex`: reading tokens takes every text apart like this.
* `tokenize_locates`: the tokens of a script are in order, with gaps between them, each in its place.
-/

namespace Stasis.Script

open Stasis.Text

variable {p : Position} {cs before gap lexeme rest : List Char} {c : Char}

/-! ## Gaps -/

/-- White space and comments, before the text `behind`. A line comment goes up to a line feed or to the
end of the text, a block comment up to the first mark that closes it. -/
inductive IsGap (behind : List Char) : List Char → Prop
  | nil : IsGap behind []
  | blank {c : Char} {cs : List Char} (hc : isBlank c = true) (h : IsGap behind cs) :
    IsGap behind (c :: cs)
  | lineComment {body cs : List Char} (hbody : '\n' ∉ body)
    (hend : ∀ c, (cs ++ behind).head? = some c → c = '\n') (h : IsGap behind cs) :
    IsGap behind ('/' :: '/' :: (body ++ cs))
  | blockComment {body cs : List Char} (hbody : ¬ ['*', '/'] <:+: body) (h : IsGap behind cs) :
    IsGap behind ('/' :: '*' :: (body ++ '*' :: '/' :: cs))

/-- What is still to be skipped: a gap, or one whose first comment has begun before. -/
def GapState.Skips (behind gap : List Char) : GapState → Prop
  | between => IsGap behind gap
  | lineComment => ∃ body cs, '\n' ∉ body ∧ (∀ c, (cs ++ behind).head? = some c → c = '\n') ∧
    IsGap behind cs ∧ gap = body ++ cs
  | blockComment _ => ∃ body cs, ¬ ['*', '/'] <:+: body ∧ IsGap behind cs ∧
    gap = body ++ '*' :: '/' :: cs

/-- The body of a block comment does not close it before its end. -/
theorem not_closes_cons {body cs : List Char} (hbody : ¬ ['*', '/'] <:+: body)
    (hnext : ∀ more, c = '*' → body ++ '*' :: cs ≠ '/' :: more) : ¬ ['*', '/'] <:+: c :: body := by
  intro hclose
  rcases List.infix_cons_iff.mp hclose with hprefix | hinfix
  · obtain ⟨hc, hslash⟩ := List.cons_prefix_cons.mp hprefix
    obtain ⟨more, rfl⟩ := hslash
    exact hnext (more ++ '*' :: cs) hc.symm rfl
  · exact hbody hinfix

/-- **What is skipped before a token is white space and comments**, and a line feed among them is
noticed. -/
theorem skips_of_skipGap {state : GapState} {seen newline : Bool} {rest : Rest}
    (h : skipGap state seen p cs = .ok (rest, newline)) :
    ∃ gap, rest.IsBehind p cs gap ∧ state.Skips rest.chars gap ∧
      newline = (seen || gap.contains '\n') := by
  fun_induction skipGap state seen p cs with
  | case1 seen p cs ih =>
    obtain ⟨gap, hbehind, hgap, rfl⟩ := ih h
    exact ⟨_, hbehind.cons, .blank (by decide) hgap, by simp⟩
  | case2 seen p cs ih =>
    obtain ⟨gap, hbehind, ⟨body, more, hbody, hend, hmore, rfl⟩, rfl⟩ := ih h
    exact ⟨_, hbehind.cons.cons, .lineComment hbody hend hmore, by simp⟩
  | case3 seen p cs ih =>
    obtain ⟨gap, hbehind, ⟨body, more, hbody, hmore, rfl⟩, rfl⟩ := ih h
    exact ⟨_, hbehind.cons.cons, .blockComment hbody hmore, by simp⟩
  | case4 seen p c cs hfeed _ _ hblank ih =>
    obtain ⟨gap, hbehind, hgap, rfl⟩ := ih h
    have hc : ('\n' == c) = false := by
      rw [beq_eq_false_iff_ne]
      exact fun heq => hfeed heq.symm
    exact ⟨_, hbehind.cons, .blank hblank hgap, by rw [List.contains_cons, hc, Bool.false_or]⟩
  | case5 | case6 =>
    cases h
    exact ⟨[], ⟨rfl, rfl⟩, .nil, by simp⟩
  | case7 seen p cs ih =>
    obtain ⟨gap, hbehind, hgap, rfl⟩ := ih h
    refine ⟨_, hbehind.cons, ⟨[], '\n' :: gap, List.not_mem_nil, ?_, .blank (by decide) hgap, rfl⟩,
      by simp⟩
    intro c hc
    exact (Option.some.inj hc).symm
  | case8 seen p c cs hfeed ih =>
    obtain ⟨gap, hbehind, ⟨body, more, hbody, hend, hmore, rfl⟩, rfl⟩ := ih h
    have hc : '\n' ≠ c := fun heq => hfeed heq.symm
    refine ⟨_, hbehind.cons, ⟨c :: body, more, ?_, hend, hmore, rfl⟩, ?_⟩
    · exact List.not_mem_cons_of_ne_of_not_mem hc hbody
    · rw [List.contains_cons, beq_eq_false_iff_ne.mpr hc, Bool.false_or]
  | case9 =>
    cases h
    refine ⟨[], ⟨rfl, rfl⟩, ⟨[], [], List.not_mem_nil, ?_, .nil, rfl⟩, by simp⟩
    intro c hc
    cases hc
  | case10 start seen p cs ih =>
    obtain ⟨gap, hbehind, hgap, rfl⟩ := ih h
    exact ⟨_, hbehind.cons.cons, ⟨[], gap, by simp, hgap, rfl⟩, by simp⟩
  | case11 start seen p c cs hclose ih =>
    obtain ⟨gap, hbehind, ⟨body, more, hbody, hmore, rfl⟩, rfl⟩ := ih h
    refine ⟨_, hbehind.cons, ⟨c :: body, more, ?_, hmore, rfl⟩, ?_⟩
    · have hnext : ∀ more', c = '*' → body ++ '*' :: '/' :: more ≠ '/' :: more' := by
        rintro more' rfl hslash
        refine hclose (more' ++ rest.chars) rfl ?_
        rw [hbehind.chars, hslash]
        rfl
      exact not_closes_cons hbody hnext
    · rw [List.contains_cons, Bool.or_assoc, Bool.beq_comm]
  | case12 => cases h

/-! ## Places -/

/-- What stands behind the last line feed. -/
def lastLine (cs : List Char) : List Char := (cs.reverse.takeWhile (· ≠ '\n')).reverse

theorem lastLine_concat (cs : List Char) (c : Char) :
    lastLine (cs ++ [c]) = if c = '\n' then [] else lastLine cs ++ [c] := by
  unfold lastLine
  rw [List.reverse_append, List.reverse_singleton, List.singleton_append, List.takeWhile_cons]
  by_cases hc : c = '\n'
  · simp [hc]
  · simp [hc]

/-- Behind a text, the reader is in the line that the text ends with. -/
theorem advance_first (cs : List Char) :
    (Position.first.advance cs).line = .ofNat (cs.count '\n') + 1 ∧
    (Position.first.advance cs).offset =
      (Position.first.advance cs).lineStart + byteLength (lastLine cs) := by
  induction cs using List.reverseRecOn with
  | nil => exact ⟨rfl, rfl⟩
  | append_singleton cs c ih =>
    obtain ⟨hline, hoffset⟩ := ih
    rw [Position.advance_append, lastLine_concat, List.count_append, List.count_singleton]
    set p := Position.first.advance cs
    show (p.step c).line = _ ∧ (p.step c).offset = (p.step c).lineStart + _
    unfold Position.step
    by_cases hc : c = '\n'
    · simp [hc, hline, UInt32.ofNat_add]
    · simp [hc, hline, hoffset, Nat.add_assoc]

/-- The place of a part of a script, behind what stands before it. -/
def spanOf (before lexeme : List Char) : Span where
  start := byteLength before
  stop := byteLength before + byteLength lexeme
  line := .ofNat (before.count '\n') + 1
  column := .ofNat (byteLength (lastLine before)) + 1

/-- A reader that has come to a part of a script knows its place. -/
theorem spanTo_advance (before lexeme : List Char) :
    (Position.first.advance before).spanTo ((Position.first.advance before).advance lexeme) =
      spanOf before lexeme := by
  obtain ⟨hline, hoffset⟩ := advance_first before
  have hstart : (Position.first.advance before).offset = byteLength before := by
    rw [Position.offset_advance, Position.first, Nat.zero_add]
  have hcolumn : byteLength before - (Position.first.advance before).lineStart =
      byteLength (lastLine before) := by
    omega
  rw [Position.spanTo, Position.columnAt, Position.offset_advance _ lexeme, hline, hstart, hcolumn,
    spanOf]

/-! ## All tokens -/

/-- Behind `before`, a text that is made up of gaps and the lexemes of tokens. The last token is the
end. -/
inductive Lexes : List Char → List Char → List Token → Prop
  | stop {before gap : List Char} (hgap : IsGap [] gap) :
    Lexes before gap [⟨.eof, spanOf (before ++ gap) [], gap.contains '\n'⟩]
  | token {before gap lexeme rest : List Char} {kind : TokenKind} {ts : List Token}
    (hgap : IsGap (lexeme ++ rest) gap) (hspells : kind.Spells lexeme)
    (h : Lexes (before ++ gap ++ lexeme) rest ts) :
    Lexes before (gap ++ (lexeme ++ rest))
      (⟨kind, spanOf (before ++ gap) lexeme, gap.contains '\n'⟩ :: ts)

/-- **Reading tokens takes a text apart into gaps and lexemes.** -/
theorem lexes_of_readTokens {steps : ℕ} {acc tokens : List Token} {stop : Token}
    (hsteps : cs.length < steps)
    (h : readTokens steps acc (Position.first.advance before) cs = .ok (tokens, stop)) :
    ∃ more, tokens = acc.reverse ++ more ∧ Lexes before cs (more ++ [stop]) := by
  induction steps generalizing acc before cs with
  | zero => exact absurd hsteps (Nat.not_lt_zero _)
  | succ steps ih =>
    rw [readTokens] at h
    cases hskip : skipGap .between false (Position.first.advance before) cs with
    | error => rw [hskip] at h; cases h
    | ok gone =>
      obtain ⟨⟨chars, q⟩, newline⟩ := gone
      rw [hskip] at h
      obtain ⟨gap, ⟨rfl, rfl⟩, hgap, rfl⟩ := skips_of_skipGap hskip
      rw [← Position.advance_append, Bool.false_or] at h
      dsimp only at hsteps hgap
      cases chars with
      | nil =>
        cases h
        refine ⟨[], (List.append_nil _).symm, ?_⟩
        have hspan := spanTo_advance (before ++ gap) []
        rw [Position.advance_nil] at hspan
        rw [List.nil_append, List.append_nil, hspan]
        exact .stop hgap
      | cons c more =>
        simp only [bind, Except.bind] at h
        cases htoken : readToken (Position.first.advance (before ++ gap)) c more with
        | error => rw [htoken] at h; cases h
        | ok read =>
          obtain ⟨kind, chars, q⟩ := read
          rw [htoken] at h
          obtain ⟨lexeme, hspells, hchars, rfl⟩ := isBehind_of_readToken htoken
          have hchars : c :: more = lexeme ++ chars := hchars
          dsimp only at h
          rw [spanTo_advance, ← Position.advance_append] at h
          have hshorter : chars.length < steps := by
            have hlength := congrArg List.length hchars
            have hpos := List.length_pos_of_ne_nil hspells.ne_nil
            rw [List.length_append] at hsteps hlength
            omega
          obtain ⟨later, rfl, hlater⟩ := ih hshorter h
          refine ⟨_ :: later, by rw [List.reverse_cons, List.append_assoc, List.singleton_append], ?_⟩
          rw [hchars] at hgap ⊢
          exact .token hgap hspells hlater

/-- Where the last of some tokens ends, or `start` if there is none. -/
def stopOf (start : ℕ) (tokens : List Token) : ℕ :=
  (tokens.getLast?.map (·.span.stop)).getD start

/-- What stands between an offset and a token is white space and comments; the token says whether there
is a line feed. -/
structure Token.Follows (source : List Char) (offset : ℕ) (t : Token) : Prop where
  gap : IsGap (slice source t.span.start (byteLength source)) (slice source offset t.span.start)
  newline : t.newlineBefore = true ↔ '\n' ∈ slice source offset t.span.start

/-- The place of a token in a script. Lines and columns are kept in 32 bits, which is enough for a
script of fewer than 2³² - 1 bytes. -/
structure Token.IsPlaced (source : List Char) (t : Token) : Prop where
  start : IsBoundary source t.span.start
  stop : IsBoundary source t.span.stop
  line : t.span.line = .ofNat ((slice source 0 t.span.start).count '\n') + 1
  column : t.span.column = .ofNat (byteLength (lastLine (slice source 0 t.span.start))) + 1
  exact : byteLength source + 1 < UInt32.size →
    t.span.line.toNat = (slice source 0 t.span.start).count '\n' + 1 ∧
    t.span.column.toNat = byteLength (lastLine (slice source 0 t.span.start)) + 1

/-- **The tokens of a script from an offset on.** They are in order, each in its place; between them
stand gaps, and the last of them is the end of the script. -/
structure Tokenized (source : List Char) (offset : ℕ) (tokens : List Token) : Prop where
  le_start : ∀ t ∈ tokens, offset ≤ t.span.start
  ordered : tokens.Pairwise fun t next => t.span.stop ≤ next.span.start
  placed : ∀ t ∈ tokens, t.IsPlaced source
  follows : ∀ known t more, tokens = known ++ t :: more → t.Follows source (stopOf offset known)
  ends : ∃ known stop, tokens = known ++ [stop] ∧ stop.kind = .eof ∧
    stop.span.start = byteLength source ∧ stop.span.stop = byteLength source ∧
    ∀ t ∈ known, t.kind ≠ .eof ∧ t.span.start < t.span.stop

/-- A text has no more line feeds than bytes. -/
theorem count_le_byteLength (cs : List Char) : cs.count '\n' ≤ byteLength cs := by
  induction cs with
  | nil => exact Nat.le_refl 0
  | cons c cs ih =>
    rw [List.count_cons, byteLength_cons]
    by_cases hc : c = '\n'
    · subst hc
      rw [beq_self_eq_true, if_pos rfl, show Char.utf8Size '\n' = 1 from rfl]
      omega
    · rw [if_neg (by simpa using hc)]
      omega

/-- The last line of a text is a part of it. -/
theorem byteLength_lastLine_le (cs : List Char) : byteLength (lastLine cs) ≤ byteLength cs := by
  obtain ⟨earlier, hearlier⟩ : lastLine cs <:+ cs := by
    have hprefix := List.takeWhile_prefix (l := cs.reverse) (· ≠ '\n')
    simpa [lastLine] using List.reverse_suffix.mpr hprefix
  have hlength := congrArg byteLength hearlier
  rw [byteLength_append] at hlength
  omega

/-- What fits in 32 bits is kept there as it is. -/
theorem toNat_ofNat_succ {n : ℕ} (h : n + 1 < UInt32.size) : (UInt32.ofNat n + 1).toNat = n + 1 := by
  rw [UInt32.toNat_add, UInt32.toNat_ofNat_of_lt' (Nat.lt_of_succ_lt h), UInt32.toNat_one]
  exact Nat.mod_eq_of_lt h

/-- A part of a script has its place. -/
theorem isPlaced_spanOf (before lexeme after : List Char) {t : Token}
    (ht : t.span = spanOf before lexeme) : t.IsPlaced (before ++ lexeme ++ after) := by
  have hslice : slice (before ++ lexeme ++ after) 0 (byteLength before) = before := by
    simpa using slice_eq [] before (lexeme ++ after)
  rw [spanOf] at ht
  refine ⟨?_, ?_, ?_, ?_, fun hshort => ?_⟩
  · exact ⟨before, lexeme ++ after, List.append_assoc .., by rw [ht]⟩
  · exact ⟨before ++ lexeme, after, rfl, by rw [ht, byteLength_append]⟩
  · rw [ht, hslice]
  · rw [ht, hslice]
  · rw [List.append_assoc, byteLength_append] at hshort
    have hlines := count_le_byteLength before
    have hcolumns := byteLength_lastLine_le before
    rw [ht, hslice]
    exact ⟨toNat_ofNat_succ (by omega), toNat_ofNat_succ (by omega)⟩

/-- A token behind a gap. -/
theorem follows_gap {t : Token} (hgap : IsGap (lexeme ++ rest) gap)
    (ht : t.span = spanOf (before ++ gap) lexeme) (hline : t.newlineBefore = gap.contains '\n') :
    t.Follows (before ++ gap ++ lexeme ++ rest) (byteLength before) := by
  have hstart : t.span.start = byteLength before + byteLength gap := by
    rw [ht, spanOf, byteLength_append]
  have hskipped : slice (before ++ gap ++ lexeme ++ rest) (byteLength before) t.span.start = gap := by
    have hslice := slice_eq before gap (lexeme ++ rest)
    rwa [← List.append_assoc, ← hstart] at hslice
  have hbehind : slice (before ++ gap ++ lexeme ++ rest) t.span.start
      (byteLength (before ++ gap ++ lexeme ++ rest)) = lexeme ++ rest := by
    have hslice := slice_eq (before ++ gap) (lexeme ++ rest) []
    rw [List.append_nil, ← byteLength_append, ← List.append_assoc, byteLength_append before gap,
      ← hstart] at hslice
    exact hslice
  refine ⟨?_, ?_⟩
  · rwa [hskipped, hbehind]
  · rw [hskipped, hline, List.contains_iff_mem]

theorem stopOf_cons (start : ℕ) (t : Token) (known : List Token) :
    stopOf start (t :: known) = stopOf t.span.stop known := by
  rw [stopOf, stopOf, List.getLast?_cons]
  cases known.getLast? <;> rfl

/-- **The tokens that a text is made up of**, behind a text that has been read. -/
theorem Lexes.tokenized {ts : List Token} (h : Lexes before cs ts) :
    Tokenized (before ++ cs) (byteLength before) ts := by
  induction h with
  | @stop before gap hgap =>
    have hspan : byteLength before ≤ byteLength (before ++ gap) := by
      rw [byteLength_append]
      exact Nat.le_add_right _ _
    set t : Token := ⟨.eof, spanOf (before ++ gap) [], gap.contains '\n'⟩
    have hplaced : t.IsPlaced (before ++ gap ++ [] ++ []) := isPlaced_spanOf (before ++ gap) [] [] rfl
    have hfollows : t.Follows (before ++ gap ++ [] ++ []) (byteLength before) :=
      follows_gap hgap rfl rfl
    simp only [List.append_nil] at hplaced hfollows
    refine ⟨?_, List.pairwise_singleton _ _, ?_, ?_, ?_⟩
    · exact List.forall_mem_singleton.mpr hspan
    · exact List.forall_mem_singleton.mpr hplaced
    · intro known t more heq
      cases known with
      | nil =>
        obtain ⟨rfl, -⟩ := List.cons.inj heq
        exact hfollows
      | cons u known =>
        have hnil := (List.cons.inj heq).2
        exact absurd hnil.symm (by simp)
    · exact ⟨[], _, rfl, rfl, rfl, rfl, nofun⟩
  | @token before gap lexeme rest kind ts hgap hspells h ih =>
    have hpos := byteLength_pos hspells.ne_nil
    have hsource : before ++ (gap ++ (lexeme ++ rest)) = before ++ gap ++ lexeme ++ rest := by
      simp only [List.append_assoc]
    rw [hsource]
    set t : Token := ⟨kind, spanOf (before ++ gap) lexeme, gap.contains '\n'⟩
    have hstart : byteLength before ≤ t.span.start := by
      show byteLength before ≤ byteLength (before ++ gap)
      rw [byteLength_append]
      exact Nat.le_add_right _ _
    have hstop : t.span.stop = byteLength (before ++ gap ++ lexeme) := (byteLength_append _ _).symm
    have hlt : t.span.start < t.span.stop := Nat.lt_add_of_pos_right hpos
    refine ⟨?_, ?_, ?_, ?_, ?_⟩
    · refine List.forall_mem_cons.mpr ⟨hstart, fun u hu => ?_⟩
      have hu := ih.le_start u hu
      omega
    · exact List.pairwise_cons.mpr ⟨fun u hu => hstop.trans_le (ih.le_start u hu), ih.ordered⟩
    · exact List.forall_mem_cons.mpr ⟨isPlaced_spanOf (before ++ gap) lexeme rest rfl, ih.placed⟩
    · intro known u more heq
      cases known with
      | nil =>
        obtain ⟨rfl, -⟩ := List.cons.inj heq
        exact follows_gap hgap rfl rfl
      | cons v known =>
        obtain ⟨rfl, htail⟩ := List.cons.inj heq
        rw [stopOf_cons, hstop]
        exact ih.follows known u more htail
    · obtain ⟨known, stop, rfl, heof, hfirst, hlast, hknown⟩ := ih.ends
      refine ⟨t :: known, stop, rfl, heof, hfirst, hlast, ?_⟩
      refine List.forall_mem_cons.mpr ⟨⟨?_, hlt⟩, hknown⟩
      intro hkind
      rw [show kind = .eof from hkind] at hspells
      exact hspells

/-- **A script is made up of gaps and the lexemes of its tokens.** -/
theorem lexes_of_lex {source : String} {tokens : List Token} {stop : Token}
    (h : lex source = .ok (tokens, stop)) : Lexes [] source.toList (tokens ++ [stop]) := by
  have hsteps : source.toList.length < source.length + 1 := by
    rw [String.length_toList]
    exact Nat.lt_succ_self _
  have hread : readTokens (source.length + 1) [] (Position.first.advance []) source.toList =
    .ok (tokens, stop) := h
  obtain ⟨more, rfl, hlexes⟩ := lexes_of_readTokens hsteps hread
  exact hlexes

/-- **Tokens take up all of a script but white space and comments, and each of them knows its place.** -/
theorem tokenize_locates {source label : String} {tokens : List Token}
    (h : tokenize source label = .ok tokens) : Tokenized source.toList 0 tokens := by
  unfold tokenize at h
  cases hlex : lex source with
  | error e => rw [hlex] at h; cases h
  | ok read =>
    obtain ⟨known, stop⟩ := read
    rw [hlex] at h
    obtain rfl := Except.ok.inj h
    exact (lexes_of_lex hlex).tokenized

/-- Line feeds in a comment and behind a backslash, and a character of more than one byte. -/
theorem tokenize_locates_lines : ∃ tokens, tokenize "a/*x\n*/'é\\\nw'+b//c" "" = .ok tokens ∧
    tokens.map (fun t => (t.span.line, t.span.column)) = [(1, 1), (2, 3), (3, 3), (3, 4), (3, 8)] ∧
    Tokenized "a/*x\n*/'é\\\nw'+b//c".toList 0 tokens := by
  have h : tokenize "a/*x\n*/'é\\\nw'+b//c" "" = .ok [⟨.ident "a", ⟨0, 1, 1, 1⟩, false⟩,
      ⟨.text "éw", ⟨7, 14, 2, 3⟩, true⟩, ⟨.punct .plus, ⟨14, 15, 3, 3⟩, false⟩,
      ⟨.ident "b", ⟨15, 16, 3, 4⟩, false⟩, ⟨.eof, ⟨19, 19, 3, 8⟩, false⟩] := by cbv
  exact ⟨_, h, rfl, tokenize_locates h⟩

end Stasis.Script
