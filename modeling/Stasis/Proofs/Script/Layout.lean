import Mathlib
import Stasis.Script.Instrument
import Stasis.Proofs.Script.Placed

/-!
# How insertions lie around the nodes of a tree

Every text that is inserted belongs to a node. The order in which texts are inserted puts those of a
node around those of the nodes inside of it, and away from those of all other nodes.

* `Draft.Allows`: what may be inserted for a node.
* `Insertion.BelongsTo`: where an insertion stands that belongs to a node or to one below it.
* `Insertion.IsBefore`: the order of insertions.
* `Insertion.Clears`: what belongs to a node elsewhere is not put between two texts around a node.
* `Layout`: the insertions for some nodes, as a walk through the nodes makes them.
* `Layout.append`, `Layout.enclose`, `Layout.surround`: how a layout is built.
-/

namespace Stasis.Script

open Stasis.Text

variable {source : List Char} {d : Draft} {hoistAt hoistAt' least least' rank : ℕ} {ts : List Token}
  {lo hi : ℕ} {span span' : Span} {m n : Node} {nodes more : List Node} {xs ys : List Insertion}
  {i w c : Insertion}

/-! ## Places of insertions -/

/-- The span goes from one boundary of the source to a later one. -/
structure Span.Fits (source : List Char) (span : Span) : Prop where
  start_lt_stop : span.start < span.stop
  first : IsBoundary source span.start
  last : IsBoundary source span.stop

theorem Span.IsIn.fits (h : span.IsIn ts lo hi) (hts : Located source ts) : span.Fits source where
  start_lt_stop := h.start_lt_stop
  first := by
    obtain ⟨t, ht, hstart⟩ := h.first
    exact hstart ▸ (hts.located t ht).isBoundary_start
  last := by
    obtain ⟨t, ht, hstop⟩ := h.last
    exact hstop ▸ (hts.located t ht).isBoundary_stop

/-- Opening and closing texts stand at the ends of their node. Registrations of declarations stand
before it, at the given offset or behind the start of something around it. -/
def Insertion.HasPlace (hoistAt start : ℕ) (i : Insertion) : Prop :=
  match i.phase with
  | .open => i.offset = i.owner.start
  | .close => i.offset = i.owner.stop
  | .hoist => i.offset ≤ i.owner.start ∧ (i.offset = hoistAt ∨ start ≤ i.offset)
  | .replace => False

/-- What the piece records, if anything, is a construct in the span. -/
def Piece.RecordsIn (d : Draft) (span : Span) : Piece → Prop
  | .text _ => True
  | .record captures _ => ∃ id inner, captures = d.captures id inner ∧ inner.Within span

theorem Piece.RecordsIn.mono {piece : Piece} (h : piece.RecordsIn d span)
    (hspan : span.Within span') : piece.RecordsIn d span' := by
  cases piece with
  | text => trivial
  | record captures source =>
    obtain ⟨id, inner, hcaptures, hinner⟩ := h
    exact ⟨id, inner, hcaptures, hinner.trans hspan⟩

/-- The text that opens a check. -/
def checkText : String := runtimeCall "ensureSerializable"

/-- What may be inserted for a node with the span: it records constructs of the span only, and it
opens a check only if the brackets of the span close. -/
structure Draft.Allows (d : Draft) (span : Span) (pieces : List Piece) : Prop where
  records : ∀ piece ∈ pieces, piece.RecordsIn d span
  balanced : pieces = [.text checkText] → isBalanced (d.slice span) = true

theorem allows_text {text : String} (h : text ≠ checkText) : d.Allows span [.text text] where
  records := List.forall_mem_singleton.mpr trivial
  balanced := by
    intro heq
    cases heq
    exact absurd rfl h

theorem allows_check (h : isBalanced (d.slice span) = true) : d.Allows span [.text checkText] where
  records := List.forall_mem_singleton.mpr trivial
  balanced := fun _ => h

/-- A record between two texts. -/
theorem recordsIn_around {record : Piece} (h : record.RecordsIn d span) (before after : String) :
    ∀ piece ∈ [.text before, record, .text after], piece.RecordsIn d span := by
  intro piece hpiece
  rcases List.mem_cons.mp hpiece with rfl | hpiece
  · trivial
  rcases List.mem_pair.mp hpiece with rfl | rfl
  · exact h
  · trivial

theorem allows_record {record : Piece} (h : record.RecordsIn d span) (before after : String) :
    d.Allows span [.text before, record, .text after] where
  records := recordsIn_around h before after
  balanced := by
    intro heq
    cases heq

/-- The insertion belongs to the node or to one below it, which is nested at least so deeply. -/
structure Insertion.BelongsTo (d : Draft) (hoistAt least : ℕ) (n : Node) (i : Insertion) : Prop where
  node : ∃ m : Node, m.IsIn n ∧ i.owner = m.span
  within : i.owner.Within n.span
  fits : i.owner.Fits d.source
  least_le : least ≤ i.rank
  boundary : IsBoundary d.source i.offset
  place : i.HasPlace hoistAt n.span.start
  allowed : d.Allows i.owner i.pieces

/-- What belongs to a child belongs to the node around it, too. -/
theorem Insertion.BelongsTo.enclose (h : i.BelongsTo d hoistAt' least m)
    (hchild : m ∈ n.children) (hwithin : m.span.Within n.span)
    (hhoist : hoistAt' = hoistAt ∨ n.span.start ≤ hoistAt') :
    i.BelongsTo d hoistAt least n where
  node := by
    obtain ⟨owner, howner, hspan⟩ := h.node
    exact ⟨owner, howner.tail hchild, hspan⟩
  within := h.within.trans hwithin
  fits := h.fits
  least_le := h.least_le
  boundary := h.boundary
  allowed := h.allowed
  place := by
    have hplace := h.place
    unfold HasPlace at hplace ⊢
    split
    case h_1 heq | h_2 heq => simpa [heq] using hplace
    case h_4 heq => simp [heq] at hplace
    case h_3 heq =>
      simp only [heq] at hplace
      refine ⟨hplace.1, ?_⟩
      have hstart := hwithin.1
      omega

theorem Insertion.BelongsTo.weaken (h : i.BelongsTo d hoistAt least n)
    (hle : least' ≤ least) : i.BelongsTo d hoistAt least' n :=
  ⟨h.node, h.within, h.fits, hle.trans h.least_le, h.boundary, h.place, h.allowed⟩

/-! ## The order of insertions -/

/-- The insertion is made before another one, wherever both stand in a list. -/
def Insertion.IsBefore (i j : Insertion) : Prop :=
  i.offset < j.offset ∨ i.offset = j.offset ∧ (i.phase.index < j.phase.index ∨
    i.phase = j.phase ∧ Draft.tiebreak i.phase i.rank < Draft.tiebreak j.phase j.rank)

/-- The text closes what another one opens: both are around the same node. -/
structure Insertion.Closes (c w : Insertion) : Prop where
  phase : c.phase = .close
  offset : c.offset = w.owner.stop
  rank : c.rank = w.rank
  owner : c.owner = w.owner

/-- An insertion between the text that opens a node and the one that closes it belongs to a node
inside. -/
def Insertion.Clears (w i : Insertion) : Prop :=
  i.owner.Within w.owner ∨ i.IsBefore w ∨ ∀ c : Insertion, c.Closes w → c.IsBefore i

/-- What belongs to a node itself, of a lower rank than all nodes below, is clear of those. -/
theorem clears_outer (hw : w.BelongsTo d hoistAt least n) (hopen : w.phase = .open)
    (howner : i.owner = n.span) (hrank : i.rank < w.rank)
    (hplace : i.HasPlace hoistAt n.span.start) :
    w.Clears i := by
  have hwplace := hw.place
  obtain ⟨hstart, hstop⟩ := hw.within
  simp only [Insertion.HasPlace, hopen] at hwplace
  rw [← howner] at hstart hstop
  unfold Insertion.HasPlace at hplace
  split at hplace
  · next hphase =>
    refine .inr (.inl ?_)
    simp only [Insertion.IsBefore, hphase, hopen, hplace, hwplace, Draft.tiebreak, true_and]
    omega
  · next hphase =>
    refine .inr (.inr fun c hc => ?_)
    simp only [Insertion.IsBefore, hphase, hc.phase, hplace, hc.offset, hc.rank, Draft.tiebreak,
      true_and]
    omega
  · next hphase =>
    refine .inr (.inl ?_)
    simp only [Insertion.IsBefore, hphase, hopen, hwplace, Phase.index]
    omega
  · exact hplace.elim

/-- What belongs to nodes apart from each other is clear of each other. -/
theorem clears_apart (hw : w.BelongsTo d hoistAt least m) (hopen : w.phase = .open)
    (hi : i.BelongsTo d hoistAt least n) (hhoist : hoistAt ≤ m.span.start)
    (hapart : m.Apart n) : w.Clears i := by
  have hwplace := hw.place
  obtain ⟨hwstart, hwstop⟩ := hw.within
  simp only [Insertion.HasPlace, hopen] at hwplace
  obtain ⟨hstart, hstop⟩ := hi.within
  have hlt := hi.fits.start_lt_stop
  have hplace := hi.place
  rcases hapart with hbehind | hbefore
  · unfold Insertion.HasPlace at hplace
    split at hplace
    case h_1 hphase | h_2 hphase =>
      refine .inr (.inr fun c hc => ?_)
      simp only [Insertion.IsBefore, hphase, hc.phase, hplace, hc.offset, Phase.index]
      omega
    case h_3 hphase =>
      -- a registration at the given offset is before everything else
      rcases hplace.2 with hplace | hplace
      · refine .inr (.inl ?_)
        simp only [Insertion.IsBefore, hphase, hopen, hwplace, Phase.index]
        omega
      · refine .inr (.inr fun c hc => ?_)
        simp only [Insertion.IsBefore, hphase, hc.phase, hc.offset, Phase.index]
        omega
    case h_4 => exact hplace.elim
  · refine .inr (.inl ?_)
    unfold Insertion.HasPlace at hplace
    split at hplace
    case h_4 => exact hplace.elim
    all_goals
      next hphase =>
      simp only [Insertion.IsBefore, hphase, hopen, hwplace, Phase.index]
      omega

/-! ## Layouts -/

/-- Nodes apart from each other, with an offset before all of them at which declarations may be
registered. -/
structure Site (source : List Char) (hoistAt : ℕ) (nodes : List Node) : Prop where
  boundary : IsBoundary source hoistAt
  behind : ∀ n ∈ nodes, hoistAt ≤ n.span.start
  fits : ∀ n ∈ nodes, n.span.Fits source
  apart : nodes.Pairwise Node.Apart

theorem Site.sublist (h : Site source hoistAt more) (hsub : nodes.Sublist more) :
    Site source hoistAt nodes :=
  ⟨h.boundary, fun n hn => h.behind n (hsub.subset hn), fun n hn => h.fits n (hsub.subset hn),
    h.apart.sublist hsub⟩

/-- Both open a node at the same place, and nothing says which of them is the outer one. -/
structure Insertion.OpensAlike (i j : Insertion) : Prop where
  left : i.phase = .open
  right : j.phase = .open
  start : i.owner.start = j.owner.start
  stop : i.owner.stop = j.owner.stop
  rank : i.rank = j.rank

theorem Insertion.OpensAlike.symm {i j : Insertion} (h : i.OpensAlike j) : j.OpensAlike i :=
  ⟨h.right, h.left, h.start.symm, h.stop.symm, h.rank.symm⟩

/-- **The insertions for some nodes**: each belongs to one of them, opening texts are followed by
what closes them, and between the two nothing is inserted that belongs elsewhere. -/
structure Layout (d : Draft) (hoistAt least : ℕ) (nodes : List Node) (xs : List Insertion) :
    Prop where
  belongs : ∀ i ∈ xs, ∃ n ∈ nodes, i.BelongsTo d hoistAt least n
  clears : ∀ w ∈ xs, w.phase = .open → ∀ i ∈ xs, w.Clears i
  closed : ∀ w ∈ xs, w.phase = .open → ∃ c : Insertion, c.Closes w ∧ [w, c] <:+: xs
  distinct : xs.Pairwise fun i j => ¬ i.OpensAlike j

theorem layout_nil : Layout d hoistAt least nodes [] := ⟨nofun, nofun, nofun, .nil⟩

namespace Layout

theorem mono (h : Layout d hoistAt least nodes xs) (hsub : nodes ⊆ more) :
    Layout d hoistAt least more xs where
  belongs := by
    intro i hi
    obtain ⟨n, hn, hbelongs⟩ := h.belongs i hi
    exact ⟨n, hsub hn, hbelongs⟩
  clears := h.clears
  closed := h.closed
  distinct := h.distinct

theorem weaken (h : Layout d hoistAt least nodes xs) (hle : least' ≤ least) :
    Layout d hoistAt least' nodes xs where
  belongs := by
    intro i hi
    obtain ⟨n, hn, hbelongs⟩ := h.belongs i hi
    exact ⟨n, hn, hbelongs.weaken hle⟩
  clears := h.clears
  closed := h.closed
  distinct := h.distinct

/-- What is inserted for children of a node is inserted for the node. -/
theorem enclose (h : Layout d hoistAt' least nodes xs)
    (hchild : ∀ m ∈ nodes, m ∈ n.children ∧ m.span.Within n.span)
    (hhoist : hoistAt' = hoistAt ∨ n.span.start ≤ hoistAt') :
    Layout d hoistAt least [n] xs where
  belongs := by
    intro i hi
    obtain ⟨m, hm, hbelongs⟩ := h.belongs i hi
    exact ⟨n, List.mem_cons_self, hbelongs.enclose (hchild m hm).1 (hchild m hm).2 hhoist⟩
  clears := h.clears
  closed := h.closed
  distinct := h.distinct

/-- **What is inserted for nodes apart from each other.** -/
theorem append (hsite : Site d.source hoistAt (nodes ++ more))
    (h : Layout d hoistAt least nodes xs) (hmore : Layout d hoistAt least more ys) :
    Layout d hoistAt least (nodes ++ more) (xs ++ ys) where
  belongs := by
    intro i hi
    rcases List.mem_append.mp hi with hi | hi
    · exact (h.mono (List.subset_append_left _ _)).belongs i hi
    · exact (hmore.mono (List.subset_append_right _ _)).belongs i hi
  clears := by
    intro w hw hopen i hi
    have hcross := (List.pairwise_append.mp hsite.apart).2.2
    rcases List.mem_append.mp hw with hw | hw <;> rcases List.mem_append.mp hi with hi | hi
    · exact h.clears w hw hopen i hi
    · obtain ⟨m, hm, hw⟩ := h.belongs w hw
      obtain ⟨n, hn, hi⟩ := hmore.belongs i hi
      exact clears_apart hw hopen hi (hsite.behind m (by simp [hm])) (hcross m hm n hn)
    · obtain ⟨n, hn, hw⟩ := hmore.belongs w hw
      obtain ⟨m, hm, hi⟩ := h.belongs i hi
      exact clears_apart hw hopen hi (hsite.behind n (by simp [hn])) (hcross m hm n hn).symm
    · exact hmore.clears w hw hopen i hi
  closed := by
    intro w hw hopen
    rcases List.mem_append.mp hw with hw | hw
    · obtain ⟨c, hc, hadjacent⟩ := h.closed w hw hopen
      exact ⟨c, hc, hadjacent.trans (List.prefix_append xs ys).isInfix⟩
    · obtain ⟨c, hc, hadjacent⟩ := hmore.closed w hw hopen
      exact ⟨c, hc, hadjacent.trans (List.suffix_append xs ys).isInfix⟩
  distinct := by
    refine List.pairwise_append.mpr ⟨h.distinct, hmore.distinct, ?_⟩
    -- a node cannot lie in two that are apart
    rintro i hi j hj ⟨-, -, hstart, hstop, -⟩
    obtain ⟨m, hm, hi⟩ := h.belongs i hi
    obtain ⟨n, hn, hj⟩ := hmore.belongs j hj
    have hcross := (List.pairwise_append.mp hsite.apart).2.2 m hm n hn
    obtain ⟨histart, histop⟩ := hi.within
    obtain ⟨hjstart, hjstop⟩ := hj.within
    have hlt := hi.fits.start_lt_stop
    unfold Node.Apart at hcross
    omega

/-- What belongs to a node itself is clear of what is inside. -/
theorem clears_own (h : Layout d hoistAt least [n] xs) (hrank : i.rank < least)
    (howner : i.owner = n.span) (hplace : i.HasPlace hoistAt n.span.start) (hw : w ∈ xs)
    (hopen : w.phase = .open) : w.Clears i := by
  obtain ⟨m, hm, hbelongs⟩ := h.belongs w hw
  rw [List.mem_singleton.mp hm] at hbelongs
  exact clears_outer hbelongs hopen howner (hrank.trans_le hbelongs.least_le) hplace

/-- **One more text of a node that opens nothing.** -/
theorem concat (h : Layout d hoistAt least [n] xs) (hrank : rank < least)
    (hi : i.BelongsTo d hoistAt rank n) (hirank : i.rank = rank)
    (howner : i.owner = n.span) (hphase : i.phase ≠ .open) :
    Layout d hoistAt rank [n] (xs ++ [i]) where
  belongs := by
    intro j hj
    rcases List.mem_append.mp hj with hj | hj
    · exact (h.weaken hrank.le).belongs j hj
    · rw [List.mem_singleton.mp hj]
      exact ⟨n, List.mem_cons_self, hi⟩
  clears := by
    intro w hw hopen j hj
    rcases List.mem_append.mp hw with hw | hw
    · rcases List.mem_append.mp hj with hj | hj
      · exact h.clears w hw hopen j hj
      · rw [List.mem_singleton.mp hj]
        exact h.clears_own (hirank.trans_lt hrank) howner hi.place hw hopen
    · rw [List.mem_singleton.mp hw] at hopen
      exact absurd hopen hphase
  closed := by
    intro w hw hopen
    rcases List.mem_append.mp hw with hw | hw
    · obtain ⟨c, hc, hadjacent⟩ := h.closed w hw hopen
      exact ⟨c, hc, hadjacent.trans (List.prefix_append xs [i]).isInfix⟩
    · rw [List.mem_singleton.mp hw] at hopen
      exact absurd hopen hphase
  distinct := by
    refine List.pairwise_append.mpr ⟨h.distinct, List.pairwise_singleton _ _, ?_⟩
    rintro j - k hk ⟨-, hopen, -, -, -⟩
    rw [List.mem_singleton.mp hk] at hopen
    exact hphase hopen

/-- **Two texts around a node.** -/
theorem surround (h : Layout d hoistAt least [n] xs) (hrank : rank < least)
    (hn : n.span.Fits d.source) {opening closing : List Piece}
    (hopening : d.Allows n.span opening) (hclosing : d.Allows n.span closing) :
    Layout d hoistAt rank [n] (xs ++ [⟨n.span.start, .open, rank, n.span, opening⟩,
      ⟨n.span.stop, .close, rank, n.span, closing⟩]) where
  belongs := by
    intro j hj
    refine (List.mem_append.mp hj).elim ((h.weaken hrank.le).belongs j) fun hj => ?_
    refine ⟨n, List.mem_cons_self, ?_⟩
    have hself : n.span.Within n.span := ⟨le_rfl, le_rfl⟩
    rcases List.mem_pair.mp hj with rfl | rfl
    · exact ⟨⟨n, .refl, rfl⟩, hself, hn, le_rfl, hn.first, rfl, hopening⟩
    · exact ⟨⟨n, .refl, rfl⟩, hself, hn, le_rfl, hn.last, rfl, hclosing⟩
  clears := by
    intro w hw hopen j hj
    rcases List.mem_append.mp hw with hw | hw
    · refine (List.mem_append.mp hj).elim (h.clears w hw hopen j) fun hj => ?_
      rcases List.mem_pair.mp hj with rfl | rfl
      · exact h.clears_own hrank rfl rfl hw hopen
      · exact h.clears_own hrank rfl rfl hw hopen
    · -- everything else is inside of the node
      have howner : w.owner = n.span := by rcases List.mem_pair.mp hw with rfl | rfl <;> rfl
      refine .inl (howner ▸ ?_)
      rcases List.mem_append.mp hj with hj | hj
      · obtain ⟨m, hm, hbelongs⟩ := h.belongs j hj
        rw [List.mem_singleton.mp hm] at hbelongs
        exact hbelongs.within
      · rcases List.mem_pair.mp hj with rfl | rfl <;> exact ⟨le_rfl, le_rfl⟩
  closed := by
    intro w hw hopen
    rcases List.mem_append.mp hw with hw | hw
    · obtain ⟨c, hc, hadjacent⟩ := h.closed w hw hopen
      exact ⟨c, hc, hadjacent.trans (List.prefix_append xs _).isInfix⟩
    · rcases List.mem_pair.mp hw with rfl | rfl
      · exact ⟨⟨n.span.stop, .close, rank, n.span, closing⟩, ⟨rfl, rfl, rfl, rfl⟩,
          (List.suffix_append xs _).isInfix⟩
      · cases hopen
  distinct := by
    refine List.pairwise_append.mpr ⟨h.distinct, ?_, ?_⟩
    · refine List.pairwise_pair.mpr ?_
      rintro ⟨-, hopen, -, -, -⟩
      cases hopen
    · rintro j hj k hk ⟨-, -, -, -, heq⟩
      obtain ⟨m, -, hbelongs⟩ := h.belongs j hj
      have hle := hbelongs.least_le
      have hk : k.rank = rank := by rcases List.mem_pair.mp hk with rfl | rfl <;> rfl
      omega

end Layout

end Stasis.Script
