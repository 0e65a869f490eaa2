import Mathlib
import Stasis.Script.Parser
import Stasis.Proofs.Script.Numbered

/-!
# Readers of tokens that succeed

A reader that does not reject its stream takes tokens from the front of it. What it has read stands
between the end of the token taken before it and the end of the token that it took last.

* `Reads`: a reader, begun at a stream, reads a value and leaves a stream.
* `reads_bind_iff`: one reader after another; every other way to build a reader has its own lemma.
* `reads_repeat`: an invariant of repeated rounds.
* `Stream.Sound`: what is left of a list of tokens, and the place of the token taken last.
* `Stream.budget`: the numbers that a reader can have given away when all tokens are taken.
* `Stream.Passes`: what a reader has passed follows one another between these places, and its constructs bear
  numbers given away on the way, no more of them than tokens taken.
* `Stream.Takes`: a way on which a token is taken that no number is given away for.
-/

namespace Stasis.Script

open Parse

variable {α β σ : Type} {s s' s'' : Stream} {a : α} {b : β} {x y : Parse α} {m : Punctuator}
  {t : Token}

/-- The reader, begun at `s`, reads `a` and leaves `s'`. -/
def Reads (reader : Parse α) (s : Stream) (a : α) (s' : Stream) : Prop :=
  reader.run s = .ok (a, s')

/-! ## How readers are built -/

@[simp] theorem reads_pure_iff {value : α} : Reads (pure value) s a s' ↔ value = a ∧ s = s' := by
  simp [Reads, pure, StateT.pure, Except.pure, StateT.run]

@[simp] theorem reads_bind_iff {f : α → Parse β} :
    Reads (x >>= f) s b s'' ↔ ∃ a s', Reads x s a s' ∧ Reads (f a) s' b s'' := by
  unfold Reads
  rw [StateT.run_bind]
  rcases x.run s with e | ⟨a, t⟩
  · simp [bind, Except.bind]
  · simp [bind, Except.bind]

@[simp] theorem reads_map_iff {f : α → β} :
    Reads (f <$> x) s b s' ↔ ∃ a, Reads x s a s' ∧ f a = b := by
  rw [map_eq_pure_bind, reads_bind_iff]
  simp only [reads_pure_iff]
  constructor
  · rintro ⟨a, _, h, hb, rfl⟩
    exact ⟨a, h, hb⟩
  · rintro ⟨a, h, hb⟩
    exact ⟨a, s', h, hb, rfl⟩

@[simp] theorem reads_ite_iff {c : Prop} [Decidable c] :
    Reads (if c then x else y) s a s' ↔ c ∧ Reads x s a s' ∨ ¬ c ∧ Reads y s a s' := by
  split <;> simp_all

@[simp] theorem reads_get_iff {found : Stream} : Reads get s found s' ↔ s = found ∧ s = s' := by
  simp [Reads, get, getThe, MonadStateOf.get, StateT.get, StateT.run, pure, Except.pure]

@[simp] theorem reads_set_iff {next : Stream} {u : PUnit} : Reads (set next) s u s' ↔ next = s' := by
  simp [Reads, set, StateT.set, StateT.run, pure, Except.pure]

@[simp] theorem not_reads_throw {e : Rejection} : ¬ Reads (throw e) s a s' := by
  simp [Reads, throw, throwThe, MonadExceptOf.throw, StateT.run, StateT.lift, bind, Except.bind]

@[simp] theorem not_reads_reject {fault : Fault} : ¬ Reads (reject fault) s a s' := by
  simp only [reject, reads_bind_iff, not_reads_throw, and_false, exists_false, not_false_eq_true]

@[simp] theorem not_reads_unexpected : ¬ Reads unexpected s a s' := by
  simp only [unexpected, reads_bind_iff, not_reads_reject, and_false, exists_false,
    not_false_eq_true]

/-! ## Looking at tokens and taking them -/

/-- A look at the stream leaves it as it is. -/
theorem reads_look_iff {f : Stream → α} :
    Reads (do return f (← get)) s a s' ↔ f s = a ∧ s = s' := by
  simp only [reads_bind_iff, reads_get_iff, reads_pure_iff]
  constructor
  · rintro ⟨_, _, ⟨rfl, rfl⟩, rfl, rfl⟩
    exact ⟨rfl, rfl⟩
  · rintro ⟨rfl, rfl⟩
    exact ⟨s, s, ⟨rfl, rfl⟩, rfl, rfl⟩

@[simp] theorem reads_peek_iff : Reads peek s t s' ↔ s.peek = t ∧ s = s' := reads_look_iff

@[simp] theorem reads_peekAt_iff {n : ℕ} : Reads (peekAt n) s t s' ↔ s.peekAt n = t ∧ s = s' :=
  reads_look_iff

@[simp] theorem reads_isPunct_iff {found : Bool} :
    Reads (isPunct m) s found s' ↔ s.peek.isPunct m = found ∧ s = s' := reads_look_iff

@[simp] theorem reads_isWord_iff {name : String} {found : Bool} :
    Reads (isWord name) s found s' ↔ s.peek.isWord name = found ∧ s = s' := reads_look_iff

@[simp] theorem reads_atEof_iff {found : Bool} :
    Reads atEof s found s' ↔ s.peek.isEof = found ∧ s = s' := reads_look_iff

@[simp] theorem reads_spanFrom_iff {start span : Span} :
    Reads (spanFrom start) s span s' ↔ start.to s.last = span ∧ s = s' := reads_look_iff

@[simp] theorem reads_advance_iff : Reads advance s t s' ↔ s.peek = t ∧ s.tail = s' := by
  simp only [advance, reads_bind_iff, reads_get_iff, reads_set_iff, reads_pure_iff]
  constructor
  · rintro ⟨_, _, ⟨rfl, rfl⟩, _, _, rfl, rfl, rfl⟩
    exact ⟨rfl, rfl⟩
  · rintro ⟨rfl, rfl⟩
    exact ⟨s, s, ⟨rfl, rfl⟩, (), s.tail, rfl, rfl, rfl⟩

@[simp] theorem reads_freshId_iff {id : NodeId} :
    Reads freshId s id s' ↔ s.nextId = id ∧ { s with nextId := s.nextId + 1 } = s' := by
  simp [freshId, Reads, modifyGet, MonadStateOf.modifyGet, StateT.modifyGet, StateT.run, pure,
    Except.pure]

@[simp] theorem reads_expect_iff :
    Reads (expect m) s t s' ↔ s.peek.isPunct m = true ∧ s.peek = t ∧ s.tail = s' := by
  simp only [expect, reads_bind_iff, reads_isPunct_iff, reads_ite_iff, reads_advance_iff,
    reads_get_iff, not_reads_reject, and_false, exists_false, or_false]
  constructor
  · rintro ⟨_, _, ⟨rfl, rfl⟩, h⟩
    exact h
  · intro h
    exact ⟨_, s, ⟨rfl, rfl⟩, h⟩

@[simp] theorem reads_expectWord_iff {name : String} :
    Reads (expectWord name) s t s' ↔ s.peek.isWord name = true ∧ s.peek = t ∧ s.tail = s' := by
  simp only [expectWord, reads_bind_iff, reads_isWord_iff, reads_ite_iff, reads_advance_iff,
    reads_get_iff, not_reads_reject, and_false, exists_false, or_false]
  constructor
  · rintro ⟨_, _, ⟨rfl, rfl⟩, h⟩
    exact h
  · intro h
    exact ⟨_, s, ⟨rfl, rfl⟩, h⟩

/-- A mark that may be next is taken, or it is not next and nothing is. -/
@[simp] theorem reads_eat_iff {found : Bool} : Reads (eat m) s found s' ↔
    s.peek.isPunct m = true ∧ found = true ∧ s.tail = s' ∨
      s.peek.isPunct m = false ∧ found = false ∧ s = s' := by
  cases found <;> simp [eat]

@[simp] theorem reads_eatWord_iff {name : String} {found : Bool} :
    Reads (eatWord name) s found s' ↔ s.peek.isWord name = true ∧ found = true ∧ s.tail = s' ∨
      s.peek.isWord name = false ∧ found = false ∧ s = s' := by
  cases found <;> simp [eatWord]

/-- Where two ways to read a part go on in the same way, the part has been read in one of them. -/
theorem reads_join {c d : Prop} {R R' P : α → Stream → Prop}
    (h : c ∧ (∃ a t, R a t ∧ P a t) ∨ d ∧ ∃ a t, R' a t ∧ P a t) :
    ∃ a t, (c ∧ R a t ∨ d ∧ R' a t) ∧ P a t := by
  rcases h with ⟨hc, a, t, ha, hP⟩ | ⟨hd, a, t, ha, hP⟩
  · exact ⟨a, t, .inl ⟨hc, ha⟩, hP⟩
  · exact ⟨a, t, .inr ⟨hd, ha⟩, hP⟩

/-- **What every round of a repetition keeps holds where it ends.** -/
theorem reads_repeat {I : σ → Stream → Prop} {Q : α → Stream → Prop} {round : σ → Parse (σ ⊕ α)}
    {start : σ} (hround : ∀ ⦃x s y s'⦄, I x s → Reads (round x) s y s' →
      Sum.elim (I · s') (Q · s') y)
    (hstart : I start s) (h : Reads (Parse.repeat round start) s a s') : Q a s' := by
  simp [Parse.repeat] at h
  generalize s.rest.length + 1 = steps at h
  induction steps generalizing start s with
  | zero => simp [rounds] at h
  | succ steps ih =>
    simp only [rounds, reads_bind_iff] at h
    obtain ⟨y, t, hy, h⟩ := h
    have hkept := hround hstart hy
    cases y with
    | inl next => exact ih hkept h
    | inr answer =>
      obtain ⟨rfl, rfl⟩ := reads_pure_iff.mp h
      exact hkept

/-! ## Kinds of tokens -/

theorem Token.isPunct_iff : t.isPunct m = true ↔ t.kind = .punct m := by
  unfold isPunct
  split <;> simp_all

theorem Token.isWord_iff {name : String} : t.isWord name = true ↔ t.kind = .ident name := by
  unfold isWord
  split <;> simp_all

theorem Token.kind_ne_eof_of_isPunct (h : t.isPunct m = true) : t.kind ≠ .eof := by
  rw [isPunct_iff.mp h]
  exact nofun

theorem Token.kind_ne_eof_of_isWord {name : String} (h : t.isWord name = true) : t.kind ≠ .eof := by
  rw [isWord_iff.mp h]
  exact nofun

/-! ## Streams of a list of tokens -/

/-- What is left of tokens that follow one another: the token taken last stands behind all that were
taken and before all that are left. -/
structure Stream.Sound (ts : List Token) (s : Stream) : Prop where
  split : ∃ taken, taken ++ s.rest = ts ∧ ∀ t ∈ taken, t.span.stop ≤ s.last.stop
  left : ∀ t ∈ s.rest, s.last.stop ≤ t.span.start
  eof : s.stop.kind = .eof
  last : s.last.stop = 0 ∨ ∃ t ∈ ts, t.span.stop = s.last.stop
  start_lt_stop : ∀ t ∈ ts, t.span.start < t.span.stop
  ordered : ts.Pairwise fun t next => t.span.stop ≤ next.span.start

namespace Stream.Sound

variable {ts : List Token}

/-- Before the end there is a token to take. -/
theorem exists_rest (hs : s.Sound ts) (hnext : s.peek.kind ≠ .eof) :
    ∃ more, s.rest = s.peek :: more := by
  cases hrest : s.rest with
  | nil =>
    have hpeek : s.peek = s.stop := by simp [peek, peekAt, hrest]
    exact absurd hs.eof (hpeek ▸ hnext)
  | cons t more =>
    have hpeek : s.peek = t := by simp [peek, peekAt, hrest]
    exact ⟨more, by rw [hpeek]⟩

theorem peek_mem (hs : s.Sound ts) (hnext : s.peek.kind ≠ .eof) : s.peek ∈ ts := by
  obtain ⟨taken, hts, -⟩ := hs.split
  obtain ⟨more, hrest⟩ := hs.exists_rest hnext
  rw [← hts, hrest]
  exact List.mem_append_right _ List.mem_cons_self

/-- The place of the next token. -/
theorem peek_isIn (hs : s.Sound ts) (hnext : s.peek.kind ≠ .eof) :
    s.peek.span.IsIn ts s.last.stop s.tail.last.stop where
  lower := by
    obtain ⟨more, hrest⟩ := hs.exists_rest hnext
    exact hs.left s.peek (hrest ▸ List.mem_cons_self)
  start_lt_stop := hs.start_lt_stop s.peek (hs.peek_mem hnext)
  upper := le_rfl
  first := ⟨s.peek, hs.peek_mem hnext, rfl⟩
  last := ⟨s.peek, hs.peek_mem hnext, rfl⟩

theorem last_lt_tail (hs : s.Sound ts) (hnext : s.peek.kind ≠ .eof) :
    s.last.stop < s.tail.last.stop :=
  (hs.peek_isIn hnext).lower.trans_lt (hs.peek_isIn hnext).start_lt_stop

/-- The stream behind the next token. -/
theorem tail (hs : s.Sound ts) (hnext : s.peek.kind ≠ .eof) : s.tail.Sound ts := by
  have hpeek := hs.peek_isIn hnext
  obtain ⟨taken, hts, htaken⟩ := hs.split
  obtain ⟨more, hrest⟩ := hs.exists_rest hnext
  have htail : s.tail.rest = more := by simp [Stream.tail, hrest]
  have hmore := hs.ordered
  rw [← hts, hrest] at hmore
  refine ⟨⟨taken ++ [s.peek], ?_, ?_⟩, ?_, hs.eof, .inr hpeek.last, hs.start_lt_stop, hs.ordered⟩
  · rw [htail, ← hts, hrest, List.append_assoc, List.singleton_append]
  · intro t ht
    rcases List.mem_append.mp ht with ht | ht
    · exact (htaken t ht).trans (hpeek.lower.trans hpeek.start_lt_stop.le)
    · rw [List.mem_singleton.mp ht]
      exact le_rfl
  · rw [htail]
    exact (List.pairwise_cons.mp (List.pairwise_append.mp hmore).2.1).1

/-- A token that ends behind the token taken last is left, and the next token is not behind it. -/
theorem peek_of_lt (hs : s.Sound ts) {t : Token} (ht : t ∈ ts) (hlt : s.last.stop < t.span.stop) :
    s.peek ∈ s.rest ∧ s.peek.span.start ≤ t.span.start := by
  have hordered := hs.ordered
  obtain ⟨taken, hts, htaken⟩ := hs.split
  rw [← hts] at hordered
  have hrest : t ∈ s.rest := by
    rw [← hts] at ht
    exact (List.mem_append.mp ht).resolve_left fun ht => absurd (htaken t ht) (by omega)
  cases hs' : s.rest with
  | nil => simp [hs'] at hrest
  | cons u more =>
    have hpeek : s.peek = u := by simp [peek, peekAt, hs']
    rw [hs'] at hrest hordered
    refine ⟨by simp [hpeek], ?_⟩
    rcases List.mem_cons.mp hrest with rfl | hrest
    · rw [hpeek]
    · have hu := hs.start_lt_stop u (by rw [← hts, hs']; simp)
      have hnext := (List.pairwise_cons.mp (List.pairwise_append.mp hordered).2.1).1 t hrest
      rw [hpeek]
      omega

/-- Numbers that are given away do not matter. -/
theorem withNextId (hs : s.Sound ts) {id : NodeId} : Sound ts { s with nextId := id } :=
  ⟨hs.split, hs.left, hs.eof, hs.last, hs.start_lt_stop, hs.ordered⟩

/-- From the start of a span to the token taken last. -/
theorem to_isIn {first : Span} {lo : ℕ} (hs : s.Sound ts) (hfirst : first.IsIn ts lo s.last.stop) :
    (first.to s.last).IsIn ts lo s.last.stop where
  lower := hfirst.lower
  start_lt_stop := hfirst.start_lt_stop.trans_le hfirst.upper
  upper := le_rfl
  first := hfirst.first
  last := hs.last.resolve_left (by
    have hpos := hfirst.start_lt_stop.trans_le hfirst.upper
    omega)

end Stream.Sound

/-! ## Passing over nodes -/

/-- The numbers that are given away, with one for every token that is left. -/
def Stream.budget (s : Stream) : ℕ := s.nextId + s.rest.length

/-- A token that is taken. -/
theorem Stream.Sound.budget_tail {ts : List Token} (hs : s.Sound ts) (hnext : s.peek.kind ≠ .eof) :
    s.tail.budget + 1 = s.budget := by
  obtain ⟨more, hrest⟩ := hs.exists_rest hnext
  simp only [budget, Stream.tail, hrest, List.tail_cons, List.length_cons]
  omega

/-- On the way from one stream to another stand these nodes, in this order. The constructs in them bear
numbers that were given away on this way, no more of them than tokens were taken. -/
structure Stream.Passes (ts : List Token) (s s' : Stream) (nodes : List Node) : Prop where
  sound : s'.Sound ts
  numbers : Numbered s.nextId s'.nextId nodes
  nodes : Sequence ts s.last.stop s'.last.stop nodes
  within : s'.budget ≤ s.budget

/-- On such a way a token is taken that no number is given away for. -/
structure Stream.Takes (ts : List Token) (s s' : Stream) (nodes : List Node) : Prop
    extends s.Passes ts s' nodes where
  last_lt : s.last.stop < s'.last.stop
  spare : s'.budget < s.budget

namespace Stream.Passes

variable {ts : List Token} {nodes more order : List Node} {n first : Node}

theorem refl (hs : s.Sound ts) : s.Passes ts s [] :=
  ⟨hs, numbered_nil le_rfl, sequence_nil le_rfl, le_rfl⟩

theorem trans (h : s.Passes ts s' nodes) (hmore : s'.Passes ts s'' more) :
    s.Passes ts s'' (nodes ++ more) :=
  ⟨hmore.sound, h.numbers.append hmore.numbers, h.nodes.append hmore.nodes,
    hmore.within.trans h.within⟩

/-- A token that leaves no node. -/
theorem token (hs : s.Sound ts) (hnext : s.peek.kind ≠ .eof) : s.Passes ts s.tail [] :=
  ⟨hs.tail hnext, numbered_nil le_rfl, sequence_nil (hs.last_lt_tail hnext).le,
    Nat.le_of_succ_le (hs.budget_tail hnext).le⟩

/-- A token before the nodes. -/
theorem token_trans (hs : s.Sound ts) (hnext : s.peek.kind ≠ .eof)
    (h : s.tail.Passes ts s' nodes) : s.Passes ts s' nodes :=
  (token hs hnext).trans h

/-- A token behind the nodes. -/
theorem trans_token (h : s.Passes ts s' nodes) (hnext : s'.peek.kind ≠ .eof) :
    s.Passes ts s'.tail nodes := by
  simpa using h.trans (token h.sound hnext)

/-- What comes behind a token leaves a number for it. -/
theorem spare_of_tail (hs : s.Sound ts) (hnext : s.peek.kind ≠ .eof) (h : s.tail.Passes ts s' nodes) :
    s'.budget < s.budget := by
  have htail := hs.budget_tail hnext
  have hle := h.within
  omega

/-- A number that is given away for a token that was taken. -/
theorem budget_freshId (h : s'.budget < s.budget) :
    ({ s' with nextId := s'.nextId + 1 } : Stream).budget ≤ s.budget := by
  simp only [budget] at h ⊢
  omega

/-- A token before the nodes, and its number, which no construct on the way bears. -/
theorem token_freshId (hs : s.Sound ts) (hnext : s.peek.kind ≠ .eof) (h : s.tail.Passes ts s' nodes) :
    s.Passes ts { s' with nextId := s'.nextId + 1 } nodes :=
  have hpasses := token_trans hs hnext h
  ⟨h.sound.withNextId, hpasses.numbers.mono (Nat.le_succ _), hpasses.nodes,
    budget_freshId (spare_of_tail hs hnext h)⟩

/-- Something is on the way if a node is. -/
theorem last_lt (h : s.Passes ts s' (first :: more)) : s.last.stop < s'.last.stop := by
  have hfirst := (h.nodes.placed first List.mem_cons_self).span
  exact hfirst.lower.trans_lt (hfirst.start_lt_stop.trans_le hfirst.upper)

/-- A block from its brace on, with the number of the brace. -/
theorem around_brace {b : Block} (hs : s.Sound ts) (hbrace : s.peek.isPunct .openBrace = true)
    (h : s.tail.Passes ts s' (b.body.map .statement)) (hspan : b.span = s.peek.span.to s'.last) :
    s.Passes ts { s' with nextId := s'.nextId + 1 } [.block b] := by
  have hnext := Token.kind_ne_eof_of_isPunct hbrace
  have hpeek := hs.peek_isIn hnext
  refine ⟨h.sound.withNextId, (h.numbers.enclose (.refl _) rfl).mono (Nat.le_succ _),
    sequence_singleton (Sequence.placed_around ?_ (.refl _) ?_ ?_),
    budget_freshId (spare_of_tail hs hnext h)⟩
  · simp only [Node.inside, Node.span, hspan]
    exact h.nodes.mono hpeek.start_lt_stop le_rfl
  · rw [Node.span, hspan]
    exact h.sound.to_isIn (hpeek.mono le_rfl h.nodes.le)
  · exact ⟨s.peek, hs.peek_mem hnext, Token.isPunct_iff.mp hbrace, by rw [hspan, Span.to]⟩

/-- The place of a node from the next token on, with the nodes behind that token as its children. -/
theorem placed_token (hs : s.Sound ts) (hnext : s.peek.kind ≠ .eof)
    (h : s.tail.Passes ts s' order) (hspan : n.span = s.peek.span.to s'.last)
    (horder : n.Orders order) (hplain : n.IsPlain) : n.Placed ts s.last.stop s'.last.stop := by
  have hpeek := hs.peek_isIn hnext
  refine Sequence.placed_around ?_ horder ?_ hplain.isWritten
  · rw [hplain.inside, hspan]
    exact h.nodes.mono hpeek.start_lt_stop.le le_rfl
  · rw [hspan]
    exact h.sound.to_isIn (hpeek.mono le_rfl h.nodes.le)

/-- **A node from the next token on** that is no construct. -/
theorem around_token (hs : s.Sound ts) (hnext : s.peek.kind ≠ .eof)
    (h : s.tail.Passes ts s' order) (hspan : n.span = s.peek.span.to s'.last)
    (horder : n.Orders order) (hplain : n.IsPlain) (hn : n.construct? = none) : s.Passes ts s' [n] :=
  ⟨h.sound, h.numbers.enclose horder.perm hn,
    sequence_singleton (placed_token hs hnext h hspan horder hplain), (spare_of_tail hs hnext h).le⟩

/-- **A construct from the next token on**, which bears the next number. -/
theorem construct_token (hs : s.Sound ts) (hnext : s.peek.kind ≠ .eof)
    (h : s.tail.Passes ts s' order) (hspan : n.span = s.peek.span.to s'.last)
    (horder : n.Orders order) (hplain : n.IsPlain)
    (hn : ∀ x, n.construct? = some x → x.1 = s'.nextId) :
    s.Passes ts { s' with nextId := s'.nextId + 1 } [n] := by
  have hplaced := placed_token hs hnext h hspan horder hplain
  exact ⟨h.sound.withNextId, h.numbers.construct horder.perm hn, sequence_singleton hplaced,
    budget_freshId (spare_of_tail hs hnext h)⟩

/-- So is a node that bears no number, for all that one is given away. -/
theorem unnumbered_token (hs : s.Sound ts) (hnext : s.peek.kind ≠ .eof)
    (h : s.tail.Passes ts s' order) (hspan : n.span = s.peek.span.to s'.last)
    (horder : n.Orders order) (hplain : n.IsPlain) (hn : n.construct? = none) :
    s.Passes ts { s' with nextId := s'.nextId + 1 } [n] :=
  construct_token hs hnext h hspan horder hplain fun _ hx =>
    absurd (hn.symm.trans hx) (Option.some_ne_none _).symm

/-- What is on the way goes from the next token to the token taken last. -/
theorem peek_isIn (hs : s.Sound ts) (hlt : s.last.stop < s'.last.stop) (h : s.Passes ts s' order) :
    (s.peek.span.to s'.last).IsIn ts s.last.stop s'.last.stop := by
  obtain ⟨t, ht, hstop⟩ := h.sound.last.resolve_left (by omega)
  obtain ⟨hpeek, hle⟩ := hs.peek_of_lt ht (by omega)
  have hmem : s.peek ∈ ts := by
    obtain ⟨taken, hts, -⟩ := hs.split
    exact hts ▸ List.mem_append_right taken hpeek
  have hpos := hs.start_lt_stop t ht
  exact ⟨hs.left s.peek hpeek, by simp only [Span.to]; omega, le_rfl, ⟨s.peek, hmem, rfl⟩, t, ht,
    hstop⟩

/-- The nodes on the way stand behind the start of the next token. -/
theorem from_peek (hs : s.Sound ts) (hlt : s.last.stop < s'.last.stop) (h : s.Passes ts s' order) :
    Sequence ts s.peek.span.start s'.last.stop order := by
  refine ⟨(h.peek_isIn hs hlt).start_lt_stop.le, ?_, h.nodes.ordered⟩
  intro child hchild
  have hin := (h.nodes.placed child hchild).span
  obtain ⟨u, hu, hstart⟩ := hin.first
  have hpos := hs.start_lt_stop u hu
  have hlower := hin.lower
  have hbehind := (hs.peek_of_lt hu (by omega)).2
  exact (h.nodes.placed child hchild).fit (hstart ▸ hbehind) hin.upper

/-- The place of a node from the next token on, which is taken on the way: it belongs to a child, or stands
before all of them. -/
theorem placed_peek (hs : s.Sound ts) (hlt : s.last.stop < s'.last.stop) (h : s.Passes ts s' order)
    (hspan : n.span = s.peek.span.to s'.last) (horder : n.Orders order)
    (hplain : n.IsPlain) : n.Placed ts s.last.stop s'.last.stop := by
  refine Sequence.placed_around ?_ horder ?_ hplain.isWritten
  · rw [hplain.inside, hspan]
    exact h.from_peek hs hlt
  · rw [hspan]
    exact h.peek_isIn hs hlt

/-- Such a node that is no construct. -/
theorem around_peek (hs : s.Sound ts) (hlt : s.last.stop < s'.last.stop) (h : s.Passes ts s' order)
    (hspan : n.span = s.peek.span.to s'.last) (horder : n.Orders order)
    (hplain : n.IsPlain) (hn : n.construct? = none) : s.Passes ts s' [n] :=
  ⟨h.sound, h.numbers.enclose horder.perm hn,
    sequence_singleton (placed_peek hs hlt h hspan horder hplain), h.within⟩

/-- A node that takes the place of its only child. -/
theorem around_only (h : s.Passes ts s' [first]) (hspan : n.span = first.span)
    (hchildren : n.children = [first]) (hinside : n.inside = n.span.start)
    (hwritten : n.IsWritten ts) (hn : n.construct? = none) : s.Passes ts s' [n] := by
  have hfirst := h.nodes.placed first List.mem_cons_self
  have horder : n.Orders [first] := .of_eq hchildren.symm
  refine ⟨h.sound, h.numbers.enclose horder.perm hn,
    sequence_singleton (Sequence.placed_around ?_ horder (hspan ▸ hfirst.span) hwritten), h.within⟩
  rw [hinside, hspan]
  exact sequence_singleton (hfirst.fit le_rfl le_rfl)

/-- **A node from its first child on.** -/
theorem around_first (h : s.Passes ts s' (first :: more))
    (hspan : n.span = first.span.to s'.last) (horder : n.Orders (first :: more))
    (hplain : n.IsPlain) (hn : n.construct? = none) : s.Passes ts s' [n] := by
  have hfirst := (h.nodes.placed first List.mem_cons_self).span
  refine ⟨h.sound, h.numbers.enclose horder.perm hn,
    sequence_singleton (Sequence.placed_around ?_ horder ?_ hplain.isWritten), h.within⟩
  · rw [hplain.inside, hspan]
    exact h.nodes.from_first
  · rw [hspan]
    exact h.sound.to_isIn hfirst

/-- A node from the next token to its last child. -/
theorem token_to_last (more : List Node) {last : Node} (hs : s.Sound ts) (hnext : s.peek.kind ≠ .eof)
    (h : s.tail.Passes ts s' (more ++ [last])) (hspan : n.span = s.peek.span.to last.span)
    (hchildren : n.children = more ++ [last]) (hplain : n.IsPlain) (hn : n.construct? = none) :
    s.Passes ts s' [n] := by
  have hpeek := hs.peek_isIn hnext
  have hlast := (h.nodes.placed last (by simp)).span
  have horder : n.Orders (more ++ [last]) := .of_eq hchildren.symm
  refine ⟨h.sound, h.numbers.enclose horder.perm hn,
    sequence_singleton (Sequence.placed_around ?_ horder ?_ hplain.isWritten),
    (spare_of_tail hs hnext h).le⟩
  · rw [hplain.inside, hspan]
    exact h.nodes.to_last.mono hpeek.start_lt_stop.le le_rfl
  · rw [hspan]
    exact hpeek.to hlast

/-- A node from its first child to its last. -/
theorem first_to_last (more : List Node) {last : Node}
    (h : s.Passes ts s' (first :: more ++ [last]))
    (hspan : n.span = first.span.to last.span) (hchildren : n.children = first :: more ++ [last])
    (hplain : n.IsPlain) (hn : n.construct? = none) : s.Passes ts s' [n] := by
  have hfirst := (h.nodes.placed first (by simp)).span
  have hlast := (h.nodes.placed last (by simp)).span
  have hnext := (List.pairwise_append.mp h.nodes.ordered).2.2 first (by simp) last (by simp)
  have horder : n.Orders (first :: more ++ [last]) := .of_eq hchildren.symm
  refine ⟨h.sound, h.numbers.enclose horder.perm hn,
    sequence_singleton (Sequence.placed_around ?_ horder ?_ hplain.isWritten), h.within⟩
  · rw [hplain.inside, hspan]
    exact h.nodes.to_last.from_first
  · rw [hspan]
    have hleft : first.span.IsIn ts s.last.stop first.span.stop :=
      ⟨hfirst.lower, hfirst.start_lt_stop, le_rfl, hfirst.first, hfirst.last⟩
    exact hleft.to ⟨hnext, hlast.start_lt_stop, hlast.upper, hlast.first, hlast.last⟩

end Stream.Passes

namespace Stream.Takes

variable {ts : List Token} {nodes more order : List Node} {n : Node}

/-- The next token is such a token if no number has been given away for it. -/
theorem of_tail (hs : s.Sound ts) (hnext : s.peek.kind ≠ .eof) (h : s.tail.Passes ts s' nodes) :
    s.Takes ts s' nodes :=
  ⟨.token_trans hs hnext h, (hs.last_lt_tail hnext).trans_le h.nodes.le, Passes.spare_of_tail hs hnext h⟩

theorem trans (h : s.Takes ts s' nodes) (hmore : s'.Passes ts s'' more) :
    s.Takes ts s'' (nodes ++ more) :=
  ⟨h.toPasses.trans hmore, h.last_lt.trans_le hmore.nodes.le, hmore.within.trans_lt h.spare⟩

theorem behind (h : s'.Takes ts s'' nodes) (hmore : s.Passes ts s' more) :
    s.Takes ts s'' (more ++ nodes) :=
  ⟨hmore.trans h.toPasses, hmore.nodes.le.trans_lt h.last_lt, h.spare.trans_le hmore.within⟩

/-- A node from the next token on that is no construct. -/
theorem around_peek (hs : s.Sound ts) (h : s.Takes ts s' order)
    (hspan : n.span = s.peek.span.to s'.last) (horder : n.Orders order) (hplain : n.IsPlain)
    (hn : n.construct? = none) : s.Passes ts s' [n] :=
  Passes.around_peek hs h.last_lt h.toPasses hspan horder hplain hn

/-- A construct from the next token on, which bears the next number. -/
theorem construct_peek (hs : s.Sound ts) (h : s.Takes ts s' order)
    (hspan : n.span = s.peek.span.to s'.last) (horder : n.Orders order) (hplain : n.IsPlain)
    (hn : ∀ x, n.construct? = some x → x.1 = s'.nextId) :
    s.Passes ts { s' with nextId := s'.nextId + 1 } [n] := by
  have hplaced := Passes.placed_peek hs h.last_lt h.toPasses hspan horder hplain
  exact ⟨h.sound.withNextId, h.numbers.construct horder.perm hn, sequence_singleton hplaced,
    Passes.budget_freshId h.spare⟩

end Stream.Takes

end Stasis.Script
