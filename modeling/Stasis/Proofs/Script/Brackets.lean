import Mathlib
import Stasis.Proofs.Script.PlacedStatements
import Stasis.Proofs.Script.Walked

/-!
# Brackets of tokens and brackets of characters

Whether the brackets of a part of a script close is decided on its characters. Its tokens say the same,
unless a comment has brackets or quotes of its own.

* `TokenKind.nest`: what a token does to the number of open brackets.
* `scan_lexeme`, `scan_slice`: characters do the same as the tokens that they make up.
* `isBalanced_slice_iff`: a part from token to token is balanced if its tokens are.
* `hasQuietGaps_of_uncommented`: a script without comments has no other brackets and quotes.
* `nestAll_of_isCheck`: the brackets of a checked expression close inside of it.
-/

namespace Stasis.Script

open Stasis.Text

variable {c quote : Char} {cs body lexeme source : List Char} {depth a b : ℕ} {kind : TokenKind}
  {ts inside : List Token} {t : Token}

/-! ## Tokens -/

/-- What a token does to the number of open brackets. None closes that was not opened. -/
def TokenKind.nest (depth : ℕ) : TokenKind → Option ℕ
  | .punct .openParen | .punct .openBracket | .punct .openBrace => some (depth + 1)
  | .punct .closeParen | .punct .closeBracket | .punct .closeBrace =>
    if depth = 0 then none else some (depth - 1)
  | _ => some depth

/-- The number of brackets that are open behind some tokens. -/
def nestAll (depth : ℕ) (ts : List Token) : Option ℕ :=
  ts.foldlM (fun depth t => t.kind.nest depth) depth

/-- The scan outside of quotes. -/
def BracketScan.outside (depth : ℕ) : BracketScan := ⟨depth, none, false⟩

theorem step_of_notMem (h : c ∉ delimiters) :
    (BracketScan.outside depth).step c = some (.outside depth) := by
  simp only [delimiters, List.mem_cons, List.not_mem_nil, or_false, not_or] at h
  simp only [BracketScan.step, BracketScan.outside, h, or_self, if_false]

theorem scan_of_notMem (h : ∀ c ∈ cs, c ∉ delimiters) :
    cs.foldlM BracketScan.step (.outside depth) = some (.outside depth) := by
  induction cs with
  | nil => rfl
  | cons c cs ih =>
    obtain ⟨hc, hcs⟩ := List.forall_mem_cons.mp h
    rw [List.foldlM_cons, step_of_notMem hc]
    exact ih hcs

/-- From behind a quote to behind the one that closes it. -/
theorem scan_toQuote (hquote : IsQuote quote) (h : ToQuote quote body) :
    body.foldlM BracketScan.step ⟨depth, some quote, false⟩ = some (.outside depth) := by
  have hslash : quote ≠ '\\' := by rcases hquote with rfl | rfl <;> decide
  induction h with
  | close =>
    rw [List.foldlM_cons]
    simp only [BracketScan.step, hslash, if_true, if_false]
    rfl
  | plain hc hc' _ ih =>
    rw [List.foldlM_cons]
    simp only [BracketScan.step, hc, hc', if_false]
    exact ih
  | escaped _ ih => exact ih

/-- **The characters of a token** do to the brackets what the token does. -/
theorem scan_lexeme (h : kind.Spells lexeme) :
    lexeme.foldlM BracketScan.step (.outside depth) = (kind.nest depth).map .outside := by
  cases kind with
  | eof => exact h.elim
  | punct m =>
    rw [show lexeme = m.text.toList from h]
    cases m with
    | closeBrace | closeParen | closeBracket => cases depth <;> rfl
    | _ => rfl
  | text =>
    obtain ⟨quote, body, hquote, hbody, rfl⟩ := h
    have hopen : (BracketScan.outside depth).step quote = some ⟨depth, some quote, false⟩ := by
      rcases hquote with rfl | rfl <;> rfl
    rw [List.foldlM_cons, hopen]
    exact scan_toQuote hquote hbody
  | _ => exact scan_of_notMem h.2

/-! ## Parts of a script -/

/-- The offset lies in the token. -/
def Token.Covers (t : Token) (n : ℕ) : Prop :=
  t.span.start ≤ n ∧ n < t.span.stop

/-- Every bracket and quote in a part of a script stands in one of the tokens. -/
def HasQuietGaps (source : List Char) (a b : ℕ) (ts : List Token) : Prop :=
  ∀ before c after, source = before ++ c :: after → c ∈ delimiters → a ≤ byteLength before →
    byteLength before < b → ∃ t ∈ ts, t.Covers (byteLength before)

/-- A part without tokens has no brackets and quotes. -/
theorem notMem_slice (ha : IsBoundary source a) (hb : IsBoundary source b) (hab : a ≤ b)
    (hquiet : HasQuietGaps source a b []) : ∀ c ∈ slice source a b, c ∉ delimiters := by
  obtain ⟨before, between, after, rfl, rfl, hbetween⟩ := ha.split hb hab
  have hslice := slice_eq before between after
  rw [hbetween, Nat.add_sub_cancel' hab] at hslice
  rw [hslice]
  intro c hc hmem
  obtain ⟨front, back, rfl⟩ := List.append_of_mem hc
  rw [byteLength_append, byteLength_cons] at hbetween
  have hpos := c.utf8Size_pos
  obtain ⟨t, ht, -⟩ := hquiet (before ++ front) c (back ++ after) (by simp) hmem
    (by rw [byteLength_append]; omega) (by rw [byteLength_append]; omega)
  cases ht

/-- The characters of a token are those of its span. -/
theorem Token.IsLocated.spells_slice (h : t.IsLocated source) :
    t.kind.Spells (slice source t.span.start t.span.stop) := by
  obtain ⟨before, lexeme, after, rfl, hspells, hstart, hstop⟩ := h
  rwa [hstart, hstop, slice_eq]

/-- **A part of a script** does to the brackets what its tokens do. -/
theorem scan_slice (hinside : ∀ t ∈ inside, t.IsLocated source ∧ a ≤ t.span.start ∧ t.span.stop ≤ b)
    (hordered : inside.Pairwise fun t next => t.span.stop ≤ next.span.start)
    (ha : IsBoundary source a) (hb : IsBoundary source b) (hab : a ≤ b)
    (hquiet : HasQuietGaps source a b inside) :
    (slice source a b).foldlM BracketScan.step (.outside depth) =
      (nestAll depth inside).map .outside := by
  induction inside generalizing a depth with
  | nil => exact scan_of_notMem (notMem_slice ha hb hab hquiet)
  | cons t inside ih =>
    obtain ⟨⟨hlocated, hstart, hstop⟩, hrest⟩ := List.forall_mem_cons.mp hinside
    obtain ⟨hbehind, hordered⟩ := List.pairwise_cons.mp hordered
    have hlt := hlocated.start_lt_stop
    have hfirst := hlocated.isBoundary_start
    have hlast := hlocated.isBoundary_stop
    have hgap : ∀ c ∈ slice source a t.span.start, c ∉ delimiters := by
      refine notMem_slice ha hfirst hstart fun before c after hsource hc hlo hhi => ?_
      obtain ⟨u, hu, hcovers⟩ := hquiet before c after hsource hc hlo (by omega)
      unfold Token.Covers at hcovers
      rcases List.mem_cons.mp hu with rfl | hu
      · omega
      · have hle := hbehind u hu
        omega
    have hmore : HasQuietGaps source t.span.stop b inside := by
      intro before c after hsource hc hlo hhi
      obtain ⟨u, hu, hcovers⟩ := hquiet before c after hsource hc (by omega) hhi
      refine ⟨u, (List.mem_cons.mp hu).resolve_left ?_, hcovers⟩
      rintro rfl
      unfold Token.Covers at hcovers
      omega
    have htail (depth : ℕ) : (slice source t.span.stop b).foldlM BracketScan.step
        (.outside depth) = (nestAll depth inside).map .outside :=
      ih (fun u hu => ⟨(hrest u hu).1, hbehind u hu, (hrest u hu).2.2⟩) hordered hlast hstop hmore
    rw [← slice_append_slice ha hfirst hb hstart (by omega),
      ← slice_append_slice hfirst hlast hb hlt.le hstop, List.foldlM_append, scan_of_notMem hgap]
    show (slice source t.span.start t.span.stop ++ slice source t.span.stop b).foldlM _ _ = _
    rw [List.foldlM_append, scan_lexeme hlocated.spells_slice, nestAll, List.foldlM_cons]
    cases hnest : t.kind.nest depth with
    | none => rfl
    | some next => exact htail next

theorem isBalanced_of_scan {found : Option ℕ}
    (h : cs.foldlM BracketScan.step (.outside 0) = found.map .outside) :
    isBalanced cs = true ↔ found = some 0 := by
  have hscan : cs.foldlM BracketScan.step {} = found.map .outside := h
  rw [isBalanced, hscan]
  cases found with
  | none => exact ⟨nofun, nofun⟩
  | some depth =>
    rw [Option.some.injEq]
    show (depth == 0 && true) = true ↔ _
    rw [Bool.and_true, beq_iff_eq]

/-- Different tokens do not overlap. -/
theorem Located.apart (h : Located source ts) {u : Token} (ht : t ∈ ts) (hu : u ∈ ts) (hne : t ≠ u) :
    t.span.stop ≤ u.span.start ∨ u.span.stop ≤ t.span.start := by
  let Apart (t u : Token) : Prop := t.span.stop ≤ u.span.start ∨ u.span.stop ≤ t.span.start
  have hsymm : Std.Symm Apart := ⟨fun _ _ => Or.symm⟩
  have hapart : ts.Pairwise Apart := h.ordered.imp .inl
  exact hapart.forall ht hu hne

/-- The tokens in a span. -/
def tokensIn (ts : List Token) (span : Span) : List Token :=
  ts.filter fun t => decide (span.start ≤ t.span.start ∧ t.span.stop ≤ span.stop)

/-- A token that covers an offset of a part from token to token belongs to the part. -/
theorem mem_tokensIn_of_covers {span : Span} {lo hi n : ℕ} (hts : Located source ts)
    (hspan : span.IsIn ts lo hi) (ht : t ∈ ts) (hcovers : t.Covers n) (hlo : span.start ≤ n)
    (hhi : n < span.stop) : t ∈ tokensIn ts span := by
  obtain ⟨hstart, hstop⟩ := hcovers
  obtain ⟨first, hfirst, hspanstart⟩ := hspan.first
  obtain ⟨last, hlast, hspanstop⟩ := hspan.last
  refine List.mem_filter.mpr ⟨ht, decide_eq_true ⟨?_, ?_⟩⟩
  · by_cases heq : t = first
    · rw [heq, hspanstart]
    · have hlt := (hts.located first hfirst).start_lt_stop
      rcases hts.apart ht hfirst heq with hbefore | hbehind <;> omega
  · by_cases heq : t = last
    · rw [heq, hspanstop]
    · have hlt := (hts.located last hlast).start_lt_stop
      rcases hts.apart ht hlast heq with hbefore | hbehind <;> omega

/-- **A part from token to token is balanced if its tokens are**, where no comment has a bracket or a
quote. -/
theorem isBalanced_slice_iff {span : Span} {lo hi : ℕ} (hts : Located source ts)
    (hquiet : HasQuietGaps source 0 (byteLength source) ts) (hspan : span.IsIn ts lo hi) :
    isBalanced (slice source span.start span.stop) = true ↔
      nestAll 0 (tokensIn ts span) = some 0 := by
  obtain ⟨first, hfirst, hspanstart⟩ := hspan.first
  obtain ⟨last, hlast, hspanstop⟩ := hspan.last
  have hstart : IsBoundary source span.start :=
    hspanstart ▸ (hts.located first hfirst).isBoundary_start
  have hstop : IsBoundary source span.stop := hspanstop ▸ (hts.located last hlast).isBoundary_stop
  refine isBalanced_of_scan (scan_slice ?_ ?_ hstart hstop hspan.start_lt_stop.le ?_)
  · intro t ht
    obtain ⟨ht, hin⟩ := List.mem_filter.mp ht
    exact ⟨hts.located t ht, of_decide_eq_true hin⟩
  · exact hts.ordered.sublist List.filter_sublist
  · intro before c after hsource hc hlo hhi
    have hle := hstop.le
    obtain ⟨t, ht, hcovers⟩ := hquiet before c after hsource hc (Nat.zero_le _) (by omega)
    exact ⟨t, mem_tokensIn_of_covers hts hspan ht hcovers hlo hhi, hcovers⟩

/-! ## Scripts without comments -/

/-- Nothing begins a comment. -/
def Uncommented (cs : List Char) : Prop :=
  ¬ ['/', '/'] <:+: cs ∧ ¬ ['/', '*'] <:+: cs

theorem Uncommented.of_suffix (h : Uncommented cs) {more : List Char} (hmore : more <:+ cs) :
    Uncommented more :=
  ⟨fun hline => h.1 (hline.trans hmore.isInfix), fun hblock => h.2 (hblock.trans hmore.isInfix)⟩

/-- A gap without comments has no brackets and quotes. -/
theorem exists_gap_of_skipGap {state : GapState} {seen newline : Bool} {p : Position} {rest : Rest}
    (h : skipGap state seen p cs = .ok (rest, newline)) (hstate : state = .between)
    (hcs : Uncommented cs) : ∃ gap, rest.IsBehind p cs gap ∧ ∀ c ∈ gap, c ∉ delimiters := by
  fun_induction skipGap state seen p cs
  case case1 cs ih =>
    obtain ⟨gap, hgap, hnone⟩ := ih h rfl (hcs.of_suffix (List.suffix_cons _ _))
    exact ⟨_, hgap.cons, List.forall_mem_cons.mpr ⟨by decide, hnone⟩⟩
  case case4 hblank ih =>
    obtain ⟨gap, hgap, hnone⟩ := ih h rfl (hcs.of_suffix (List.suffix_cons _ _))
    exact ⟨_, hgap.cons, List.forall_mem_cons.mpr ⟨notMem_delimiters (by decide) hblank, hnone⟩⟩
  case case2 cs _ => exact absurd ⟨[], cs, rfl⟩ hcs.1
  case case3 cs _ => exact absurd ⟨[], cs, rfl⟩ hcs.2
  case case5 | case6 =>
    cases h
    exact ⟨[], ⟨rfl, rfl⟩, fun _ hc => absurd hc List.not_mem_nil⟩
  all_goals cases hstate

/-- A character at an offset in the middle of a text is one of the middle. -/
theorem mem_of_offset {xs mid ys before after : List Char} (h : xs ++ mid ++ ys = before ++ c :: after)
    (hlo : byteLength xs ≤ byteLength before)
    (hhi : byteLength before < byteLength xs + byteLength mid) : c ∈ mid := by
  rw [List.append_assoc] at h
  obtain ⟨front, rfl⟩ := exists_append_of_byteLength_le h hlo
  rw [List.append_assoc, List.append_cancel_left_eq] at h
  rw [byteLength_append] at hhi
  obtain ⟨back, rfl⟩ := exists_append_of_byteLength_le h.symm (by omega)
  rw [List.append_assoc, List.append_cancel_left_eq] at h
  cases back with
  | nil =>
    rw [List.append_nil] at hhi
    omega
  | cons d back =>
    rw [List.cons_append, List.cons.injEq] at h
    rw [← h.1]
    exact List.mem_append_right front List.mem_cons_self

/-- A gap without brackets and quotes, and a token behind it. -/
theorem HasQuietGaps.concat {before gap chars : List Char} {n : ℕ}
    (h : HasQuietGaps source 0 (byteLength before) ts) (hsource : source = before ++ gap ++ chars)
    (hgap : ∀ c ∈ gap, c ∉ delimiters) (hstart : t.span.start = byteLength before + byteLength gap)
    (hstop : n ≤ t.span.stop) : HasQuietGaps source 0 n (ts ++ [t]) := by
  intro front c after hfront hc hlo hhi
  by_cases hbefore : byteLength front < byteLength before
  · obtain ⟨u, hu, hcovers⟩ := h front c after hfront hc hlo hbefore
    exact ⟨u, List.mem_append_left _ hu, hcovers⟩
  · refine ⟨t, List.mem_append_right _ List.mem_cons_self, ?_, by omega⟩
    by_contra hinside
    exact hgap c (mem_of_offset (hsource.symm.trans hfront) (by omega) (by omega)) hc

theorem HasQuietGaps.finish {before gap : List Char}
    (h : HasQuietGaps source 0 (byteLength before) ts) (hsource : source = before ++ gap)
    (hgap : ∀ c ∈ gap, c ∉ delimiters) : HasQuietGaps source 0 (byteLength source) ts := by
  intro front c after hfront hc hlo hhi
  refine h front c after hfront hc hlo ?_
  by_contra hinside
  rw [hsource, byteLength_append] at hhi
  have hsplit : before ++ gap ++ [] = front ++ c :: after := by rw [List.append_nil, ← hsource, hfront]
  exact hgap c (mem_of_offset hsplit (by omega) hhi) hc

theorem hasQuietGaps_of_readTokens {before : List Char} {p : Position} {steps : ℕ}
    {acc tokens : List Token} {stop : Token} (hsource : source = before ++ cs)
    (hp : p.offset = byteLength before) (hcs : Uncommented cs) (hsteps : cs.length < steps)
    (hacc : HasQuietGaps source 0 (byteLength before) acc.reverse)
    (h : readTokens steps acc p cs = .ok (tokens, stop)) :
    HasQuietGaps source 0 (byteLength source) tokens := by
  induction steps generalizing acc p cs before with
  | zero => omega
  | succ steps ih =>
    rw [readTokens] at h
    cases hskip : skipGap .between false p cs with
    | error => rw [hskip] at h; cases h
    | ok gone =>
      obtain ⟨⟨chars, q⟩, newline⟩ := gone
      rw [hskip] at h
      obtain ⟨gap, ⟨rfl, rfl⟩, hgap⟩ := exists_gap_of_skipGap hskip rfl hcs
      cases chars with
      | nil =>
        cases h
        exact hacc.finish (hsource.trans (by rw [List.append_nil])) hgap
      | cons c more =>
        simp only [bind, Except.bind] at h
        cases htoken : readToken (p.advance gap) c more with
        | error => rw [htoken] at h; cases h
        | ok read =>
          obtain ⟨kind, chars, q⟩ := read
          rw [htoken] at h
          obtain ⟨lexeme, hspells, hchars, rfl⟩ := isBehind_of_readToken htoken
          have hwhole : source = before ++ gap ++ lexeme ++ chars := by
            rw [hsource, hchars]
            simp only [List.append_assoc]
          have hrest : chars <:+ gap ++ c :: more := by
            rw [hchars]
            exact ⟨gap ++ lexeme, by simp only [List.append_assoc]⟩
          have hlexeme := List.length_pos_of_ne_nil hspells.ne_nil
          rw [hchars] at hsteps
          simp only [List.length_append] at hsteps
          refine ih hwhole ?_ (hcs.of_suffix hrest) (by omega) ?_ h
          · simp only [Position.offset_advance, byteLength_append, hp]
          · rw [List.reverse_cons]
            refine hacc.concat (hwhole.trans (List.append_assoc _ _ _)) hgap ?_ ?_
            · simp [Position.spanTo, hp]
            · rw [byteLength_append, byteLength_append]
              simp [Position.spanTo, hp, Nat.add_assoc]

/-- **A script without comments** has no brackets and quotes but those of its tokens. -/
theorem hasQuietGaps_of_uncommented {source : String} {stop : Token}
    (h : lex source = .ok (ts, stop)) (hsource : Uncommented source.toList) :
    HasQuietGaps source.toList 0 (byteLength source.toList) ts := by
  have hnone : HasQuietGaps source.toList 0 (byteLength []) [].reverse :=
    fun _ _ _ _ _ _ hhi => absurd hhi (Nat.not_lt_zero _)
  refine hasQuietGaps_of_readTokens (List.nil_append _).symm rfl hsource ?_ hnone h
  rw [String.length_toList]
  exact Nat.lt_succ_self _

/-! ## Checked expressions -/

/-- **The brackets of a checked expression close inside of it**, where no comment of the script has a
bracket or a quote: a check never cuts through parentheses. -/
theorem nestAll_of_isCheck {source : String} {wrapExpressions : Bool} {p : Program} {stop : Token}
    {i : Insertion} (hp : parseScript source instrumentLabel = .ok p)
    (hlex : lex source = .ok (ts, stop))
    (hquiet : HasQuietGaps source.toList 0 (byteLength source.toList) ts)
    (hi : i ∈ insertions ⟨source.toList, analyze p, wrapExpressions⟩ p)
    (hcheck : i.pieces = [.text checkText]) : nestAll 0 (tokensIn ts i.owner) = some 0 := by
  obtain ⟨ts', stop', hlex', hsequence⟩ := sequence_of_parseScript hp
  obtain ⟨rfl, rfl⟩ := Prod.mk.inj (Except.ok.inj (hlex'.symm.trans hlex))
  have hts := (located_of_lex hlex').1
  obtain ⟨n, hn, hbelongs⟩ := (layout_insertions hts hsequence).belongs i hi
  obtain ⟨m, hm, howner⟩ := hbelongs.node
  obtain ⟨lo, hi, hplaced⟩ := (hsequence.placed n hn).of_isIn hm
  have hbalanced := hbelongs.allowed.balanced hcheck
  rw [howner] at hbalanced ⊢
  exact (isBalanced_slice_iff hts hquiet hplaced.span).mp hbalanced

end Stasis.Script
