import Mathlib
import Stasis.Proofs.Script.Gaps
import Stasis.Proofs.Script.PlacedStatements

/-!
# Spans nest

Every node of the tree of a script goes from the start of a token to the end of one and encloses its
children, no two of which overlap.

* `Nests`: a span around the nodes directly below it.
* `Program.Nested`: the spans of a whole tree do so.
* `nested_of_parseScript`: those of every script that is read do.
-/

namespace Stasis.Script

variable {ts : List Token} {s s' : Stream} {r : Rules} {lo hi : ℕ}

/-- A span from the start of a token to the end of one, around nodes that do not overlap. -/
structure Nests (ts : List Token) (span : Span) (children : List Node) : Prop where
  start_le_stop : span.start ≤ span.stop
  first : ∃ t ∈ ts, t.span.start = span.start
  last : ∃ t ∈ ts, t.span.stop = span.stop
  within : ∀ child ∈ children, child.span.Within span
  apart : children.Pairwise Node.Apart

/-- More tokens do not matter. -/
theorem Nests.mono {ts' : List Token} {span : Span} {children : List Node}
    (h : Nests ts span children) (hts : ts ⊆ ts') : Nests ts' span children where
  start_le_stop := h.start_le_stop
  first := h.first.imp fun _ ht => ⟨hts ht.1, ht.2⟩
  last := h.last.imp fun _ ht => ⟨hts ht.1, ht.2⟩
  within := h.within
  apart := h.apart

/-- A node in place nests. -/
theorem Node.Placed.nests {n : Node} (h : n.Placed ts lo hi) : Nests ts n.span n.children where
  start_le_stop := h.span.start_lt_stop.le
  first := h.span.first
  last := h.span.last
  within := fun _ => h.within
  apart := h.apart

/-- The node stands in a statement of the script. -/
def Program.Has (p : Program) (n : Node) : Prop :=
  ∃ x ∈ p.body, n.IsIn (.statement x)

/-- **The spans of a script nest**: that of the whole, and that of every node. A property in short form
has the span of its value. -/
structure Program.Nested (ts : List Token) (p : Program) : Prop where
  whole : Nests ts p.span (p.body.map .statement)
  nodes : ∀ n, p.Has n → Nests ts n.span n.children
  shorthand : ∀ key value span, p.Has (.property (.keyValue key value true span)) →
    value.span = span

/-- The next token is one of those that are left or the end. -/
theorem Stream.Sound.peek_mem_or (hs : s.Sound ts) : s.peek ∈ ts ++ [s.stop] := by
  obtain ⟨taken, hts, -⟩ := hs.split
  cases hrest : s.rest with
  | nil =>
    have hpeek : s.peek = s.stop := by simp [peek, peekAt, hrest]
    rw [hpeek]
    exact List.mem_append_right _ List.mem_cons_self
  | cons t more =>
    have hpeek : s.peek = t := by simp [peek, peekAt, hrest]
    rw [hpeek, ← hts, hrest]
    exact List.mem_append_left _ (List.mem_append_right _ List.mem_cons_self)

/-- A script without statements takes the place of the next token, any other one goes from the next
token to the last. -/
theorem Rules.span_of_program {p : Program} (h : Reads r.program s p s') :
    p.body = [] ∧ p.span = s.peek.span ∨ p.body ≠ [] ∧ p.span = s.peek.span.to s'.last := by
  simp [program] at h
  obtain ⟨body, -, rfl⟩ := h
  by_cases hbody : body = []
  · exact .inl ⟨hbody, if_pos hbody⟩
  · exact .inr ⟨hbody, if_neg hbody⟩

/-- The span of a whole script. -/
theorem Rules.nests_program {p : Program} (hr : r.Placing ts) (hs : s.Sound ts)
    (hle : ∀ t ∈ ts ++ [s.stop], t.span.start ≤ t.span.stop) (h : Reads r.program s p s') :
    Nests (ts ++ [s.stop]) p.span (p.body.map .statement) := by
  have hpasses : s.Passes ts s' (p.body.map .statement) := places_program hr hs h
  rcases span_of_program h with ⟨hbody, hspan⟩ | ⟨hbody, hspan⟩
  · have hpeek := hs.peek_mem_or
    rw [hspan, hbody]
    exact ⟨hle s.peek hpeek, ⟨s.peek, hpeek, rfl⟩, ⟨s.peek, hpeek, rfl⟩, nofun, .nil⟩
  · obtain ⟨x, more, hx⟩ := List.exists_cons_of_ne_nil hbody
    have hlt : s.last.stop < s'.last.stop := by
      rw [hx, List.map_cons] at hpasses
      exact hpasses.last_lt
    have hwhole := hpasses.peek_isIn hs hlt
    have hnodes := hpasses.from_peek hs hlt
    rw [hspan]
    have hnests : Nests ts (s.peek.span.to s'.last) (p.body.map .statement) := by
      refine ⟨hwhole.start_lt_stop.le, hwhole.first, hwhole.last, ?_, hnodes.ordered.imp .inl⟩
      intro n hn
      exact ⟨(hnodes.placed n hn).span.lower, (hnodes.placed n hn).span.upper⟩
    exact hnests.mono (List.subset_append_left _ _)

/-- **The spans of every script that is read nest**, from token to token. -/
theorem nested_of_parseScript {source label : String} {p : Program}
    (h : parseScript source label = .ok p) :
    ∃ tokens, tokenize source label = .ok tokens ∧ p.Nested tokens := by
  obtain ⟨ts, stop, s, hlex, hreads⟩ := reads_of_parseScript h
  obtain ⟨hts, heof⟩ := located_of_lex hlex
  have htokens : tokenize source label = .ok (ts ++ [stop]) := by rw [tokenize, hlex]
  have hs := sound_of_located hts heof
  have hplacing := placing_upTo ts (2 * ts.length + 2)
  have hpasses := Rules.places_program hplacing hs hreads
  have hplaced : ∀ n, p.Has n → ∃ lo hi, n.Placed ts lo hi := by
    rintro n ⟨x, hx, hn⟩
    exact (hpasses.nodes.placed _ (List.mem_map_of_mem hx)).of_isIn hn
  refine ⟨ts ++ [stop], htokens, ?_, ?_, ?_⟩
  · refine Rules.nests_program hplacing hs ?_ hreads
    obtain ⟨known, last, hknown, -, hstart, hstop, hless⟩ := (lexes_of_lex hlex).tokenized.ends
    intro t ht
    rw [hknown] at ht
    rcases List.mem_append.mp ht with ht | ht
    · exact (hless t ht).2.le
    · rw [List.mem_singleton.mp ht, hstart, hstop]
  · intro n hn
    obtain ⟨lo, hi, hn⟩ := hplaced n hn
    exact hn.nests.mono (List.subset_append_left _ _)
  · intro key value span hn
    obtain ⟨lo, hi, hn⟩ := hplaced _ hn
    exact hn.written

/-- A property in short form, and parentheses that belong to no node. -/
theorem nested_of_parseScript_shorthand : ∃ p, parseScript "({a})" "" = .ok p ∧
    p.Has (.property (.keyValue (.ident "a") (.ident "a" 0 ⟨2, 3, 1, 3⟩) true ⟨2, 3, 1, 3⟩)) ∧
    p.span = ⟨0, 5, 1, 1⟩ ∧ ∃ tokens, tokenize "({a})" "" = .ok tokens ∧ p.Nested tokens := by
  have h : parseScript "({a})" "" = .ok ⟨[.expr (.object [.keyValue (.ident "a")
      (.ident "a" 0 ⟨2, 3, 1, 3⟩) true ⟨2, 3, 1, 3⟩] ⟨1, 4, 1, 2⟩) ⟨1, 5, 1, 2⟩], ⟨0, 5, 1, 1⟩⟩ := by
    cbv
  refine ⟨_, h, ⟨_, List.mem_cons_self, ?_⟩, rfl, nested_of_parseScript h⟩
  exact .tail (.single List.mem_cons_self) List.mem_cons_self

end Stasis.Script
