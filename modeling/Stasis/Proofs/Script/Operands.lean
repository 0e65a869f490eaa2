import Mathlib
import Stasis.Proofs.Script.Reads

/-!
# Reading operands from the kinds of tokens

What an operand is read as depends on the kinds of its tokens only. An operand grows by one member or call
after another; it is complete when the next token neither goes on with it nor joins it to another one.

* `Stream.Shows`: the kinds of the tokens that are left.
* `Rounds`: what repeated rounds have made so far.
* `Rules.Climbs`: an operand has been read up to a place, and may go on there.
* `Rules.Climbs.named`, `Rules.Climbs.keyed`, `Rules.Climbs.call`: it goes on with a member or a call.
* `Rules.climbs_spread`: an array of what an operand holds.
* `Rules.Climbs.assignment`, `Rules.Climbs.completes`: it is complete.
-/

namespace Stasis.Script

open Parse

variable {α σ : Type} {s t u : Stream} {k : TokenKind} {ks : List TokenKind} {e : Expr} {r : Rules}

/-! ## Kinds of tokens -/

/-- The tokens that are left are of these kinds. -/
structure Stream.Shows (s : Stream) (kinds : List TokenKind) : Prop where
  kinds : s.rest.map Token.kind = kinds
  eof : s.stop.kind = .eof

namespace Stream.Shows

theorem peekAt (h : s.Shows ks) (n : ℕ) : (s.peekAt n).kind = ks.getD n .eof := by
  rw [Stream.peekAt, ← h.kinds, ← h.eof, List.getD_eq_getElem?_getD, List.getD_eq_getElem?_getD,
    List.getElem?_map, Option.getD_map]

theorem peek (h : s.Shows (k :: ks)) : s.peek.kind = k := h.peekAt 0

theorem peek_nil (h : s.Shows []) : s.peek.kind = .eof := h.peekAt 0

theorem tail (h : s.Shows (k :: ks)) : s.tail.Shows ks where
  kinds := by rw [Stream.tail, List.map_tail, h.kinds, List.tail_cons]
  eof := h.eof

/-- A token of the stream has been taken. -/
theorem length_tail (h : s.Shows (k :: ks)) : s.tail.rest.length < s.rest.length := by
  have hlength := congrArg List.length h.kinds
  rw [List.length_map, List.length_cons] at hlength
  rw [Stream.tail, List.length_tail]
  omega

end Stream.Shows

theorem Token.isPunct_eq_false {t : Token} {m : Punctuator} (h : t.kind ≠ .punct m) :
    t.isPunct m = false :=
  Bool.eq_false_iff.mpr (mt isPunct_iff.mp h)

theorem Token.isWord_eq_false {t : Token} {name : String} (h : t.kind ≠ .ident name) :
    t.isWord name = false :=
  Bool.eq_false_iff.mpr (mt isWord_iff.mp h)

theorem Token.isEof_iff {t : Token} : t.isEof = true ↔ t.kind = .eof := by
  unfold Token.isEof
  split <;> simp_all

/-! ## Readers -/

/-- One reader after another. -/
theorem Reads.bind {x : Parse α} {f : α → Parse σ} {a : α} {b : σ} (hx : Reads x s a t)
    (hf : Reads (f a) t b u) : Reads (x >>= f) s b u :=
  reads_bind_iff.mpr ⟨a, t, hx, hf⟩

theorem reads_pure (a : α) (s : Stream) : Reads (pure a) s a s := reads_pure_iff.mpr ⟨rfl, rfl⟩

theorem reads_advance (s : Stream) : Reads advance s s.peek s.tail := reads_advance_iff.mpr ⟨rfl, rfl⟩

theorem reads_spanFrom (span : Span) (s : Stream) : Reads (spanFrom span) s (span.to s.last) s :=
  reads_spanFrom_iff.mpr ⟨rfl, rfl⟩

theorem reads_isPunct_true {m : Punctuator} (h : s.peek.kind = .punct m) : Reads (isPunct m) s true s :=
  reads_isPunct_iff.mpr ⟨Token.isPunct_iff.mpr h, rfl⟩

theorem reads_isPunct_false {m : Punctuator} (h : s.peek.kind ≠ .punct m) : Reads (isPunct m) s false s :=
  reads_isPunct_iff.mpr ⟨Token.isPunct_eq_false h, rfl⟩

theorem reads_eat_true {m : Punctuator} (h : s.peek.kind = .punct m) : Reads (eat m) s true s.tail :=
  reads_eat_iff.mpr (.inl ⟨Token.isPunct_iff.mpr h, rfl, rfl⟩)

theorem reads_eat_false {m : Punctuator} (h : s.peek.kind ≠ .punct m) : Reads (eat m) s false s :=
  reads_eat_iff.mpr (.inr ⟨Token.isPunct_eq_false h, rfl, rfl⟩)

theorem reads_expect {m : Punctuator} (h : s.peek.kind = .punct m) : Reads (expect m) s s.peek s.tail :=
  reads_expect_iff.mpr ⟨Token.isPunct_iff.mpr h, rfl, rfl⟩

/-! ## Rounds -/

/-- Rounds that each took a token have led from one state to another. -/
inductive Rounds (round : σ → Parse (σ ⊕ α)) (x : σ) (s : Stream) : σ → Stream → Prop
  | refl : Rounds round x s x s
  | step {y z : σ} {t u : Stream} (h : Rounds round x s y t) (hround : Reads (round y) t (.inl z) u)
    (hless : u.rest.length < t.rest.length) : Rounds round x s z u

/-- **A repetition ends where a round answers.** -/
theorem Rounds.reads_repeat {round : σ → Parse (σ ⊕ α)} {x y : σ} {a : α} (h : Rounds round x s y t)
    (hround : Reads (round y) t (.inr a) u) : Reads (Parse.repeat round x) s a u := by
  -- from `y` on as many rounds are left as there are tokens, and one more
  have hleft : ∃ steps, t.rest.length < steps ∧
      (Reads (rounds round steps y) t a u → Reads (rounds round (s.rest.length + 1) x) s a u) := by
    clear hround
    induction h with
    | refl => exact ⟨_, Nat.lt_succ_self _, id⟩
    | step _ hround hless ih =>
      obtain ⟨steps, hsteps, himp⟩ := ih
      obtain ⟨steps, rfl⟩ := Nat.exists_eq_succ_of_ne_zero (Nat.ne_zero_of_lt hsteps)
      refine ⟨steps, by omega, fun h => himp ?_⟩
      rw [rounds, reads_bind_iff]
      exact ⟨_, _, hround, h⟩
  obtain ⟨steps, hsteps, himp⟩ := hleft
  obtain ⟨steps, rfl⟩ := Nat.exists_eq_succ_of_ne_zero (Nat.ne_zero_of_lt hsteps)
  rw [Parse.repeat, reads_bind_iff]
  refine ⟨s, s, reads_get_iff.mpr ⟨rfl, rfl⟩, himp ?_⟩
  rw [rounds, reads_bind_iff]
  exact ⟨_, _, hround, reads_pure_iff.mpr ⟨rfl, rfl⟩⟩

/-! ## Where operands begin and end -/

/-- What may stand behind a name in an expression of members and calls, but for an opening parenthesis. -/
def FollowsName (ks : List TokenKind) : Prop :=
  ks.getD 0 .eof = .eof ∨ ∃ m ∈ [.dot, .openBracket, .closeBracket, .closeParen, .comma],
    ks.getD 0 .eof = .punct m

/-- With such tokens an operand may begin. -/
def StartsOperand : List TokenKind → Prop
  | .text _ :: _ | .number _ :: _ | .punct .openBracket :: _ => True
  | .ident name :: ks => isReserved name = false ∧ FollowsName ks
  | _ => False

/-- Before such a token an operand is complete. -/
def TokenKind.EndsOperand (k : TokenKind) : Prop :=
  k = .eof ∨ ∃ m ∈ [.closeBracket, .closeParen, .comma], k = .punct m

theorem TokenKind.EndsOperand.ne (h : k.EndsOperand) {m : Punctuator}
    (hm : m ∉ [.closeBracket, .closeParen, .comma]) : k ≠ .punct m := by
  rintro rfl
  obtain h | ⟨m', hm', h⟩ := h
  · cases h
  · cases h
    exact hm hm'

theorem followsName_punct {m : Punctuator} (hm : m ∈ [.dot, .openBracket, .closeBracket, .closeParen, .comma])
    (ks : List TokenKind) : FollowsName (.punct m :: ks) :=
  .inr ⟨m, hm, rfl⟩

theorem StartsOperand.ne (h : StartsOperand ks) (hs : s.Shows ks) {m : Punctuator} (hm : m ≠ .openBracket) :
    s.peek.kind ≠ .punct m := by
  unfold StartsOperand at h
  split at h
  case h_3 =>
    rw [hs.peek]
    exact fun heq => hm (TokenKind.punct.inj heq).symm
  case h_5 => exact h.elim
  all_goals
    rw [hs.peek]
    exact nofun

theorem StartsOperand.isEof_eq_false (h : StartsOperand ks) (hs : s.Shows ks) : s.peek.isEof = false := by
  rw [Bool.eq_false_iff, Ne, Token.isEof_iff]
  unfold StartsOperand at h
  split at h
  case h_5 => exact h.elim
  all_goals
    rw [hs.peek]
    exact nofun

theorem FollowsName.ne (h : FollowsName ks) {m : Punctuator}
    (hm : m ∉ [.dot, .openBracket, .closeBracket, .closeParen, .comma]) :
    ks.getD 0 .eof ≠ .punct m := by
  intro hk
  rw [FollowsName, hk] at h
  obtain h | ⟨m', hm', h⟩ := h
  · cases h
  · cases h
    exact hm hm'

theorem FollowsName.ne_ident (h : FollowsName ks) (name : String) : ks.getD 0 .eof ≠ .ident name := by
  intro hk
  rw [FollowsName, hk] at h
  obtain h | ⟨m', hm', h⟩ := h
  · cases h
  · cases h

theorem ne_of_not_reserved {name word : String} (h : isReserved name = false) (hword : word ∈ reservedWords) :
    name ≠ word := by
  rintro rfl
  rw [isReserved, List.contains_iff_mem.mpr hword] at h
  cases h

namespace Rules

/-! ## Operands -/

/-- One round of an operand: a member, a call, or the end. -/
def operandRound (r : Rules) (operand : Expr) : Parse (Expr ⊕ Expr) := do
  if ← isAccess then return .inl (← r.memberOf operand)
  if ← isPunct .openParen then
    let arguments ← r.arguments
    return .inl (.call operand arguments (← spanFrom operand.span))
  return .inr operand

/-- An operand has been read from `s` up to `t`. It may go on there. -/
structure Climbs (r : Rules) (s : Stream) (e : Expr) (t : Stream) : Prop where
  climbs : ∃ first u, Reads r.primaryRule s first u ∧ Rounds r.operandRound first u e t
  less : t.rest.length < s.rest.length

theorem reads_access_named {name : String} (ht : t.Shows (.punct .dot :: .ident name :: ks)) :
    Reads r.access t (.named name t.tail.peek.span) t.tail.tail := by
  refine (reads_eat_true ht.peek).bind ?_
  refine Reads.bind (reads_peek_iff.mpr ⟨rfl, rfl⟩) ?_
  rw [ht.tail.peek]
  exact (reads_advance _).bind (reads_pure _ _)

theorem reads_access_keyed {key : Expr} (ht : t.peek.kind = .punct .openBracket)
    (hkey : Reads r.expression t.tail key u) (hu : u.peek.kind = .punct .closeBracket) :
    Reads r.access t (.computed key) u.tail := by
  have hdot : t.peek.kind ≠ .punct .dot := by rw [ht]; exact nofun
  refine (reads_eat_false hdot).bind ?_
  exact (reads_expect ht).bind (hkey.bind ((reads_expect hu).bind (reads_pure _ _)))

/-- The operand goes on with a member. -/
theorem Climbs.member {access : Access} (h : r.Climbs s e t)
    (ht : t.peek.kind = .punct .dot ∨ t.peek.kind = .punct .openBracket)
    (haccess : Reads r.access t access u) (hless : u.rest.length < t.rest.length) :
    r.Climbs s (.member e access (e.span.to u.last)) u := by
  obtain ⟨⟨first, v, hfirst, hrounds⟩, hless'⟩ := h
  refine ⟨⟨first, v, hfirst, hrounds.step ?_ hless⟩, hless.trans hless'⟩
  have hnext : Reads isAccess t true t := by
    refine Reads.bind (reads_peek_iff.mpr ⟨rfl, rfl⟩) (reads_pure_iff.mpr ⟨?_, rfl⟩)
    rw [Bool.or_eq_true, Token.isPunct_iff, Token.isPunct_iff]
    exact ht
  have hmember : Reads (r.memberOf e) t (.member e access (e.span.to u.last)) u :=
    haccess.bind ((reads_spanFrom _ _).bind (reads_pure _ _))
  exact hnext.bind (hmember.bind (reads_pure _ _))

theorem Climbs.named {name : String} (h : r.Climbs s e t)
    (ht : t.Shows (.punct .dot :: .ident name :: ks)) :
    r.Climbs s (.member e (.named name t.tail.peek.span) (e.span.to t.tail.tail.last)) t.tail.tail :=
  h.member (.inl ht.peek) (reads_access_named ht) (ht.tail.length_tail.trans ht.length_tail)

/-- The operand goes on with a call. -/
theorem Climbs.call {arguments : List Element} (h : r.Climbs s e t) (ht : t.peek.kind = .punct .openParen)
    (harguments : Reads r.arguments t arguments u) (hless : u.rest.length < t.rest.length) :
    r.Climbs s (.call e arguments (e.span.to u.last)) u := by
  obtain ⟨⟨first, v, hfirst, hrounds⟩, hless'⟩ := h
  refine ⟨⟨first, v, hfirst, hrounds.step ?_ hless⟩, hless.trans hless'⟩
  have hnext : Reads isAccess t false t := by
    refine Reads.bind (reads_peek_iff.mpr ⟨rfl, rfl⟩) (reads_pure_iff.mpr ⟨?_, rfl⟩)
    rw [Bool.or_eq_false_iff]
    exact ⟨Token.isPunct_eq_false (by rw [ht]; exact nofun), Token.isPunct_eq_false (by rw [ht]; exact nofun)⟩
  refine hnext.bind ((reads_isPunct_true ht).bind ?_)
  exact harguments.bind ((reads_spanFrom _ _).bind (reads_pure _ _))

/-! ## First parts -/

/-- An operand that is one token so far. -/
theorem climbs_of_primary (hs : s.Shows (k :: ks)) (h : Reads r.primaryRule s e t)
    (ht : t.rest = s.tail.rest) : r.Climbs s e t :=
  ⟨⟨e, t, h, .refl⟩, ht ▸ hs.length_tail⟩

theorem climbs_text {value : String} (hs : s.Shows (.text value :: ks)) :
    r.Climbs s (.text value s.peek.span) s.tail := by
  refine climbs_of_primary hs ?_ rfl
  refine Reads.bind (reads_peek_iff.mpr ⟨rfl, rfl⟩) ?_
  rw [hs.peek]
  exact (reads_advance s).bind (reads_pure _ _)

theorem climbs_number {value : Float} (hs : s.Shows (.number value :: ks)) :
    r.Climbs s (.number value s.peek.span) s.tail := by
  refine climbs_of_primary hs ?_ rfl
  refine Reads.bind (reads_peek_iff.mpr ⟨rfl, rfl⟩) ?_
  rw [hs.peek]
  exact (reads_advance s).bind (reads_pure _ _)

/-- A name is a variable unless it is reserved, or the look-up call of recorded source. -/
theorem climbs_ident {name : String} (hs : s.Shows (.ident name :: ks)) (hname : isReserved name = false)
    (hnext : FollowsName ks) :
    r.Climbs s (.ident name s.nextId s.peek.span) { s.tail with nextId := s.nextId + 1 } := by
  have hfree {word : String} : word ∈ reservedWords → name ≠ word := ne_of_not_reserved hname
  have hlookup : Reads scopeLookup? s none s := by
    have hcall : (s.peekAt 1).isPunct .openParen = false :=
      Token.isPunct_eq_false (by rw [hs.peekAt 1]; exact hnext.ne (by decide))
    refine Reads.bind (reads_peekAt_iff.mpr ⟨rfl, rfl⟩) (Reads.bind (reads_peekAt_iff.mpr ⟨rfl, rfl⟩) ?_)
    rw [hcall, Bool.false_and]
    exact reads_pure _ _
  have htake : Reads (do let _ ← advance; return Expr.ident name (← freshId) s.peek.span) s
      (.ident name s.nextId s.peek.span) { s.tail with nextId := s.nextId + 1 } :=
    (reads_advance s).bind (Reads.bind (reads_freshId_iff.mpr ⟨rfl, rfl⟩) (reads_pure _ _))
  refine climbs_of_primary hs ?_ rfl
  refine Reads.bind (reads_peek_iff.mpr ⟨rfl, rfl⟩) ?_
  rw [hs.peek]
  dsimp only
  unfold wordRule
  rw [if_neg (not_or.mpr ⟨hfree (by decide), hfree (by decide)⟩), if_neg (hfree (by decide)),
    if_neg (hfree (by decide)), if_neg (hfree (by decide)), if_neg (hfree (by decide)), hname,
    if_neg Bool.false_ne_true]
  dsimp only
  split
  · exact hlookup.bind htake
  · exact (reads_pure none s).bind htake

/-! ## Complete operands -/

/-- Neither a keyword nor an operator nor a function of its own kind begins with the tokens of an
operand. -/
structure IsPlainStart (s : Stream) : Prop where
  word : ∀ word ∈ reservedWords, s.peek.kind ≠ .ident word
  unary : unaryOperator? s.peek = none
  update : updateOperator? s.peek = none
  arrow : startsArrow s = false
  async : startsAsync s = false

theorem isPlainStart (hs : s.Shows ks) (h : StartsOperand ks) : IsPlainStart s := by
  unfold StartsOperand at h
  split at h
  case h_4 name ks =>
    obtain ⟨hname, hnext⟩ := h
    have hfree (word : String) : word ∈ reservedWords → name ≠ word := ne_of_not_reserved hname
    have hk := hs.peek
    have hsecond := hs.peekAt 1
    rw [List.getD_cons_succ] at hsecond
    have harrow : (s.peekAt 1).isPunct .arrow = false :=
      Token.isPunct_eq_false (hsecond ▸ hnext.ne (by decide))
    have hparen : (s.peekAt 1).isPunct .openParen = false :=
      Token.isPunct_eq_false (hsecond ▸ hnext.ne (by decide))
    have hfunction : (s.peekAt 1).isWord "function" = false :=
      Token.isWord_eq_false (hsecond ▸ hnext.ne_ident "function")
    have hident : (s.peekAt 1).isIdent = false := by
      unfold Token.isIdent
      split
      · next word hword => exact absurd (hsecond ▸ hword) (hnext.ne_ident word)
      · rfl
    refine ⟨fun word hword heq => ?_, ?_, ?_, ?_, ?_⟩
    · rw [hk] at heq
      exact hfree word hword (TokenKind.ident.inj heq)
    · simp only [unaryOperator?, hk, if_neg (hfree "typeof" (by decide)),
        if_neg (hfree "void" (by decide)), if_neg (hfree "delete" (by decide))]
    · simp only [updateOperator?, hk]
    · simp only [startsArrow, hk, harrow, Bool.and_false]
    · simp only [startsAsync, hparen, hfunction, hident, Bool.false_and, Bool.or_false, Bool.and_false]
  case h_5 => exact h.elim
  all_goals
    have hk := hs.peek
    refine ⟨fun word _ heq => ?_, ?_, ?_, ?_, ?_⟩
    · rw [hk] at heq
      cases heq
    · simp only [unaryOperator?, hk]
    · simp only [updateOperator?, hk]
    · simp only [startsArrow, hk]
    · simp only [startsAsync, Token.isWord, hk, Bool.false_and]

/-- No operator goes on with a complete operand. -/
theorem TokenKind.EndsOperand.operators {t : Token} (h : t.kind.EndsOperand) :
    updateOperator? t = none ∧ binaryOperator? t = none ∧ assignOperator? t = none := by
  obtain h | ⟨m, hm, h⟩ := h
  · simp only [updateOperator?, binaryOperator?, assignOperator?, h, and_self]
  · simp only [List.mem_cons, List.not_mem_nil, or_false] at hm
    rcases hm with rfl | rfl | rfl <;>
      simp only [updateOperator?, binaryOperator?, assignOperator?, h, and_self]

theorem Climbs.leftHandSide (h : r.Climbs s e t) (hstart : IsPlainStart s) (hend : t.peek.kind.EndsOperand) :
    Reads r.leftHandSideRule s e t := by
  obtain ⟨⟨first, u, hfirst, hrounds⟩, -⟩ := h
  have hword (word : String) (hmem : word ∈ reservedWords) : Reads (isWord word) s false s :=
    reads_isWord_iff.mpr ⟨Token.isWord_eq_false (hstart.word word hmem), rfl⟩
  have haccess : Reads isAccess t false t := by
    refine Reads.bind (reads_peek_iff.mpr ⟨rfl, rfl⟩) (reads_pure_iff.mpr ⟨?_, rfl⟩)
    rw [Bool.or_eq_false_iff]
    exact ⟨Token.isPunct_eq_false (hend.ne (by decide)), Token.isPunct_eq_false (hend.ne (by decide))⟩
  have hlast : Reads (r.operandRound e) t (.inr e) t :=
    haccess.bind ((reads_isPunct_false (hend.ne (by decide))).bind (reads_pure _ _))
  refine (hword "new" (by decide)).bind ?_
  refine (hword "super" (by decide)).bind ?_
  exact hfirst.bind (hrounds.reads_repeat hlast)

/-- **An operand that is complete is an assignment.** -/
theorem Climbs.assignment (h : r.Climbs s e t) (hs : s.Shows ks) (hstart : StartsOperand ks)
    (hend : t.peek.kind.EndsOperand) : Reads r.assignmentRule s e t := by
  have hplain := isPlainStart hs hstart
  obtain ⟨hupdate, hbinary, hassign⟩ := TokenKind.EndsOperand.operators hend
  have hpeek (s : Stream) : Reads peek s s.peek s := reads_peek_iff.mpr ⟨rfl, rfl⟩
  have hstepped : Reads r.steppedRule s e t := by
    refine (h.leftHandSide hplain hend).bind ((hpeek t).bind ?_)
    rw [hupdate]
    exact reads_pure _ _
  have hunary : Reads r.unaryRule s e t := by
    refine (hpeek s).bind ?_
    rw [hplain.unary]
    dsimp only
    rw [hplain.update]
    exact hstepped
  have hoperators : Reads (r.binaryRule 0) s e t := by
    refine hunary.bind (Rounds.refl.reads_repeat ((hpeek t).bind ?_))
    rw [hbinary]
    exact reads_pure _ _
  have hconditional : Reads r.conditionalRule s e t :=
    hoperators.bind ((reads_eat_false (hend.ne (by decide))).bind (reads_pure _ _))
  refine Reads.bind (reads_get_iff.mpr ⟨rfl, rfl⟩) ?_
  rw [hplain.arrow, hplain.async, if_neg Bool.false_ne_true, if_neg Bool.false_ne_true]
  refine hconditional.bind ((hpeek t).bind ?_)
  rw [hassign]
  exact reads_pure _ _

/-- A complete operand is read from `s` up to `t`, with some tokens of its own. -/
structure Completes (r : Rules) (s : Stream) (e : Expr) (t : Stream) : Prop where
  reads : Reads r.assignment s e t
  less : t.rest.length < s.rest.length
  starts : ∀ {m : Punctuator}, m ≠ .openBracket → s.peek.kind ≠ .punct m

/-- The rules of the next depth read what is complete. -/
theorem Climbs.completes {n : ℕ} (h : (Rules.upTo n).Climbs s e t) (hs : s.Shows ks)
    (hstart : StartsOperand ks) (hend : t.peek.kind.EndsOperand) : (Rules.upTo (n + 1)).Completes s e t where
  reads := h.assignment hs hstart hend
  less := h.less
  starts := hstart.ne hs

/-! ## Members, calls and arrays -/

theorem reads_expression (h : Reads r.assignment s e t) (ht : t.peek.kind ≠ .punct .comma) :
    Reads r.expression s e t := by
  refine h.bind ((reads_isPunct_false ht).bind ?_)
  exact reads_pure _ _

/-- The operand goes on with a member that a key selects. -/
theorem Climbs.keyed {key : Expr} (h : r.Climbs s e t) (ht : t.Shows (.punct .openBracket :: ks))
    (hkey : r.Completes t.tail key u) (hu : u.peek.kind = .punct .closeBracket) :
    r.Climbs s (.member e (.computed key) (e.span.to u.tail.last)) u.tail := by
  have hexpression := reads_expression hkey.reads (by rw [hu]; exact nofun)
  refine h.member (.inr ht.peek) (reads_access_keyed ht.peek hexpression hu) ?_
  have hlength := ht.length_tail
  have hless := hkey.less
  simp only [Stream.tail, List.length_tail] at *
  omega

theorem reads_element (hs : s.peek.kind ≠ .punct .dots) (h : Reads r.assignment s e t) :
    Reads r.element s ⟨false, e⟩ t :=
  (reads_eat_false hs).bind (h.bind (reads_pure _ _))

theorem reads_element_spread (hs : s.peek.kind = .punct .dots) (h : Reads r.assignment s.tail e t) :
    Reads r.element s ⟨true, e⟩ t :=
  (reads_eat_true hs).bind (h.bind (reads_pure _ _))

/-- An operand up to the end. -/
theorem Completes.reads_loneExpression (h : r.Completes s e t) (hs : s.Shows ks)
    (hstart : StartsOperand ks) (ht : t.Shows []) : Reads r.loneExpression s e t := by
  have hmark (m : Punctuator) : t.peek.kind ≠ .punct m := by rw [ht.peek_nil]; exact nofun
  have hend : t.peek.isEof = true := Token.isEof_iff.mpr ht.peek_nil
  refine Reads.bind (reads_atEof_iff.mpr ⟨hstart.isEof_eq_false hs, rfl⟩) ?_
  rw [if_neg Bool.false_ne_true]
  refine (reads_expression h.reads (hmark .comma)).bind ((reads_eat_false (hmark .semicolon)).bind ?_)
  exact Reads.bind (reads_atEof_iff.mpr ⟨hend, rfl⟩) (reads_pure _ _)

/-- One round of arguments: another one, or the end. -/
def argumentRound (r : Rules) (items : List Element) : Parse (List Element ⊕ List Element) := do
  if ← isPunct .closeParen then return .inr items
  let items := (← r.element) :: items
  if ← eat .comma then return .inl items else return .inr items

/-- Arguments with commas between them, up to a closing parenthesis. -/
inductive ReadsArguments (r : Rules) : Stream → List Element → Stream → Prop
  | nil {s : Stream} (hs : s.peek.kind = .punct .closeParen) : ReadsArguments r s [] s
  | last {s t : Stream} {x : Element} (hs : s.peek.kind ≠ .punct .closeParen) (h : Reads r.element s x t)
    (ht : t.peek.kind = .punct .closeParen) : ReadsArguments r s [x] t
  | cons {s t u : Stream} {x : Element} {xs : List Element} (hs : s.peek.kind ≠ .punct .closeParen)
    (h : Reads r.element s x t) (ht : t.peek.kind = .punct .comma)
    (hless : t.tail.rest.length < s.rest.length) (hmore : ReadsArguments r t.tail xs u) :
    ReadsArguments r s (x :: xs) u

theorem ReadsArguments.closeParen {xs : List Element} (h : ReadsArguments r s xs t) :
    t.peek.kind = .punct .closeParen := by
  induction h with
  | nil hs => exact hs
  | last _ _ ht => exact ht
  | cons _ _ _ _ _ ih => exact ih

theorem ReadsArguments.reads_repeat {xs first items : List Element} (h : ReadsArguments r t xs u)
    (hrounds : Rounds r.argumentRound first s items t) :
    Reads (Parse.repeat r.argumentRound first) s (xs.reverse ++ items) u := by
  induction h generalizing items with
  | nil hs => exact hrounds.reads_repeat ((reads_isPunct_true hs).bind (reads_pure _ _))
  | last hs h ht =>
    have hcomma := reads_eat_false (m := .comma) (by rw [ht]; exact nofun)
    exact hrounds.reads_repeat
      ((reads_isPunct_false hs).bind (h.bind (hcomma.bind (reads_pure _ _))))
  | cons hs h ht hless _ ih =>
    rw [List.reverse_cons, List.append_assoc, List.singleton_append]
    refine ih (hrounds.step ?_ hless)
    exact (reads_isPunct_false hs).bind (h.bind ((reads_eat_true ht).bind (reads_pure _ _)))

theorem reads_arguments {xs : List Element} (hs : s.peek.kind = .punct .openParen)
    (h : ReadsArguments r s.tail xs t) : Reads r.arguments s xs t.tail := by
  have hitems := h.reads_repeat (.refl (x := []))
  rw [List.append_nil] at hitems
  refine (reads_expect hs).bind (hitems.bind ((reads_expect h.closeParen).bind ?_))
  rw [List.reverse_reverse]
  exact reads_pure _ _

/-- A call without arguments. -/
theorem Climbs.call_none (h : r.Climbs s e t) (ht : t.Shows (.punct .openParen :: .punct .closeParen :: ks)) :
    r.Climbs s (.call e [] (e.span.to t.tail.tail.last)) t.tail.tail :=
  h.call ht.peek (reads_arguments ht.peek (.nil ht.tail.peek)) (ht.tail.length_tail.trans ht.length_tail)

/-- A call with one argument. -/
theorem Climbs.call_one {x : Expr} (h : r.Climbs s e t) (ht : t.Shows (.punct .openParen :: ks))
    (hx : r.Completes t.tail x u) (hu : u.peek.kind = .punct .closeParen) :
    r.Climbs s (.call e [⟨false, x⟩] (e.span.to u.tail.last)) u.tail := by
  have helement := reads_element (hx.starts (by decide)) hx.reads
  have hread := reads_arguments ht.peek (.last (hx.starts (by decide)) helement hu)
  refine h.call ht.peek hread ?_
  have hlength := ht.length_tail
  have hless := hx.less
  simp only [Stream.tail, List.length_tail] at *
  omega

/-- A call with two arguments. -/
theorem Climbs.call_two {x y : Expr} {v : Stream} {ks' : List TokenKind} (h : r.Climbs s e t)
    (ht : t.Shows (.punct .openParen :: ks)) (hx : r.Completes t.tail x u)
    (hu : u.Shows (.punct .comma :: ks')) (hy : r.Completes u.tail y v)
    (hv : v.peek.kind = .punct .closeParen) :
    r.Climbs s (.call e [⟨false, x⟩, ⟨false, y⟩] (e.span.to v.tail.last)) v.tail := by
  have hfirst := reads_element (hx.starts (by decide)) hx.reads
  have hsecond := reads_element (hy.starts (by decide)) hy.reads
  have hread := reads_arguments ht.peek (.cons (hx.starts (by decide)) hfirst hu.peek
    (hu.length_tail.trans hx.less) (.last (hy.starts (by decide)) hsecond hv))
  refine h.call ht.peek hread ?_
  have hlength := ht.length_tail
  have hless := hx.less
  have hless' := hy.less
  simp only [Stream.tail, List.length_tail] at *
  omega

/-- One round of an array: another element, a hole, or the end. -/
def elementRound (r : Rules) (elements : List (Option Element)) :
    Parse (List (Option Element) ⊕ List (Option Element)) := do
  if ← isPunct .closeBracket then
    let _ ← advance
    return .inr elements.reverse
  if ← eat .comma then return .inl (none :: elements)
  let elements := some (← r.element) :: elements
  if !(← isPunct .closeBracket) then
    let _ ← expect .comma
  return .inl elements

/-- An array of what one operand holds. -/
theorem climbs_spread (hs : s.Shows (.punct .openBracket :: .punct .dots :: ks))
    (h : r.Completes s.tail.tail e t) (ht : t.peek.kind = .punct .closeBracket) :
    r.Climbs s (.array [some ⟨true, e⟩] (s.peek.span.to t.tail.last)) t.tail := by
  have hdots := hs.tail.peek
  have hclose := reads_isPunct_false (s := s.tail) (m := .closeBracket) (by rw [hdots]; exact nofun)
  have hcomma := reads_eat_false (s := s.tail) (m := .comma) (by rw [hdots]; exact nofun)
  have hfirst : Reads (r.elementRound []) s.tail (.inl [some ⟨true, e⟩]) t := by
    refine hclose.bind (hcomma.bind ((reads_element_spread hdots h.reads).bind ?_))
    exact (reads_isPunct_true ht).bind (reads_pure _ _)
  have hlast : Reads (r.elementRound [some ⟨true, e⟩]) t (.inr [some ⟨true, e⟩]) t.tail :=
    (reads_isPunct_true ht).bind ((reads_advance t).bind (reads_pure _ _))
  have hrounds : Rounds r.elementRound [] s.tail [some ⟨true, e⟩] t :=
    .step .refl hfirst (h.less.trans hs.tail.length_tail)
  have harray : Reads r.arrayLiteral s (.array [some ⟨true, e⟩] (s.peek.span.to t.tail.last)) t.tail :=
    (reads_advance s).bind ((hrounds.reads_repeat hlast).bind ((reads_spanFrom _ _).bind (reads_pure _ _)))
  refine ⟨⟨_, _, Reads.bind (reads_peek_iff.mpr ⟨rfl, rfl⟩) ?_, .refl⟩, ?_⟩
  · rw [hs.peek]
    exact harray
  · have hlength := hs.length_tail
    have hlength' := hs.tail.length_tail
    have hless := h.less
    simp only [Stream.tail, List.length_tail] at *
    omega

end Rules

end Stasis.Script
