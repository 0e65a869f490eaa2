import Mathlib
import Stasis.Proofs.Script.PlacedStatements
import Stasis.Proofs.Script.Walked

/-!
# An instrumented script is its source with texts inserted

* `Draft.le_placeInsertion_iff`: the order in which edits are made is that of insertions.
* `Draft.Encloses`: what stands between the two texts around a node.
* `instrument_weaves`: every instrumented script is woven of its source and its insertions, and the
  texts around its nodes nest as the nodes do.
-/

namespace Stasis.Script

open Stasis.Text

variable {hoistAt least : ℕ} {nodes : List Node} {xs sorted : List Insertion}
  {i j w c : Insertion} {d : Draft} {p : Program} {within : Option ScopeId}

/-! ## The order of edits -/

theorem Phase.index_inj {a b : Phase} : a.index = b.index ↔ a = b := by
  cases a <;> cases b <;> decide

/-- An edit comes before another or at the same place if it does not have to be made later. -/
theorem Draft.le_placeInsertion_iff : Placed.le (d.placeInsertion within i)
    (d.placeInsertion within j) = true ↔ ¬ j.IsBefore i := by
  simp only [Placed.le, Bool.or_eq_true, Bool.and_eq_true, decide_eq_true_eq, beq_iff_eq]
  simp only [placeInsertion, Insertion.IsBefore, ← Phase.index_inj]
  omega

/-- Insertions in the order in which they are made. -/
def Draft.inOrder (d : Draft) (xs : List Insertion) : List Insertion :=
  xs.mergeSort fun i j => Placed.le (d.placeInsertion none i) (d.placeInsertion none j)

theorem Draft.inOrder_perm (d : Draft) (xs : List Insertion) : (d.inOrder xs).Perm xs :=
  List.mergeSort_perm _ _

theorem Draft.pairwise_inOrder (d : Draft) (xs : List Insertion) :
    (d.inOrder xs).Pairwise fun i j => ¬ j.IsBefore i := by
  have hsorted : (d.inOrder xs).Pairwise fun i j =>
      Placed.le (d.placeInsertion none i) (d.placeInsertion none j) = true := by
    refine List.pairwise_mergeSort ?_ ?_ xs
    · simp only [le_placeInsertion_iff, Insertion.IsBefore, ← Phase.index_inj]
      omega
    · simp only [Bool.or_eq_true, le_placeInsertion_iff, Insertion.IsBefore, ← Phase.index_inj]
      omega
  exact hsorted.imp le_placeInsertion_iff.mp

/-- The characters that an insertion adds to the script. -/
def Draft.shownText (d : Draft) (i : Insertion) : List Char :=
  (String.join (i.pieces.map (d.pieceText none))).toList

theorem Draft.scriptEdits_eq (d : Draft) (xs : List Insertion) :
    d.scriptEdits xs = (d.inOrder xs).map (insertionAt Insertion.offset d.shownText) := by
  have hmap : (d.inOrder xs).map (d.placeInsertion none) =
      (xs.map (d.placeInsertion none)).mergeSort Placed.le :=
    List.map_mergeSort fun _ _ _ _ => rfl
  rw [scriptEdits, ← hmap, List.map_map]
  rfl

/-! ## Cutting the source at insertions -/

/-- Insertions in order cut the source between its characters. -/
theorem isCut_of_layout (h : Layout d hoistAt least nodes xs) (hperm : sorted.Perm xs)
    (hsorted : sorted.Pairwise fun i j => ¬ j.IsBefore i) :
    IsCut d.source Insertion.offset (byteLength d.source) 0 sorted := by
  have hboundary : ∀ i ∈ sorted, IsBoundary d.source i.offset := by
    intro i hi
    obtain ⟨n, -, hbelongs⟩ := h.belongs i (hperm.mem_iff.mp hi)
    exact hbelongs.boundary
  refine ⟨isBoundary_zero _, isBoundary_length _, Nat.zero_le _, hboundary,
    fun _ _ => Nat.zero_le _, fun i hi => (hboundary i hi).le, hsorted.imp fun hij => ?_⟩
  unfold Insertion.IsBefore at hij
  omega

/-! ## Texts around a node -/

/-- The insertion belongs to a node of the script. -/
def Program.Owns (p : Program) (i : Insertion) : Prop :=
  ∃ s ∈ p.body, ∃ n : Node, n.IsIn (.statement s) ∧ i.owner = n.span

/-- **Between the two texts around a node** stands the node's own part of the source, with texts that
belong to nodes inside of it, each opening text together with one that closes it. -/
structure Draft.Encloses (d : Draft) (p : Program) (opening closing : Insertion)
    (inside : List (Text.Part Insertion)) : Prop where
  owns : p.Owns opening
  closes : closing.Closes opening
  kept : kept inside = d.slice opening.owner
  belongs : ∀ i ∈ inserted inside, p.Owns i ∧ i.owner.Within opening.owner
  closed : ∀ i ∈ inserted inside, i.phase = .open → ∃ c ∈ inserted inside, c.Closes i

theorem offset_of_open (h : Layout d hoistAt least nodes xs) (hw : w ∈ xs)
    (hopen : w.phase = .open) : w.offset = w.owner.start ∧ w.owner.start < w.owner.stop := by
  obtain ⟨n, -, hbelongs⟩ := h.belongs w hw
  have hplace := hbelongs.place
  simp only [Insertion.HasPlace, hopen] at hplace
  exact ⟨hplace, hbelongs.fits.start_lt_stop⟩

/-- What opens a node is made before what closes it. -/
theorem isBefore_of_closes (h : Layout d hoistAt least nodes xs) (hw : w ∈ xs)
    (hopen : w.phase = .open) (hc : c.Closes w) : w.IsBefore c := by
  obtain ⟨hoffset, hlt⟩ := offset_of_open h hw hopen
  have hclose := hc.offset
  exact .inl (by omega)

/-- In order, what closes a node stands behind what opens it. -/
theorem split_around (h : Layout d hoistAt least nodes xs) (hperm : sorted.Perm xs)
    (hsorted : sorted.Pairwise fun i j => ¬ j.IsBefore i) (hw : w ∈ xs) (hopen : w.phase = .open)
    (hc : c.Closes w) (hmem : c ∈ xs) :
    ∃ front middle back, sorted = front ++ w :: (middle ++ c :: back) := by
  have hbefore := isBefore_of_closes h hw hopen hc
  obtain ⟨front, rest, rfl⟩ := List.append_of_mem (hperm.mem_iff.mpr hw)
  have hrest : c ∈ rest := by
    rcases List.mem_append.mp (hperm.mem_iff.mpr hmem) with hfront | hcons
    · exact absurd hbefore ((List.pairwise_append.mp hsorted).2.2 c hfront w List.mem_cons_self)
    · refine (List.mem_cons.mp hcons).resolve_left fun heq => ?_
      have hphase := hc.phase
      rw [heq, hopen] at hphase
      cases hphase
  obtain ⟨middle, back, rfl⟩ := List.append_of_mem hrest
  exact ⟨front, middle, back, rfl⟩

/-- What stands between the texts around a node belongs to nodes inside. -/
theorem within_of_between {front middle back : List Insertion}
    (h : Layout d hoistAt least nodes xs)
    (hperm : (front ++ w :: (middle ++ c :: back)).Perm xs)
    (hsorted : (front ++ w :: (middle ++ c :: back)).Pairwise fun i j => ¬ j.IsBefore i)
    (hopen : w.phase = .open) (hc : c.Closes w) (hi : i ∈ middle) : i.owner.Within w.owner := by
  obtain ⟨hfirst, hrest⟩ := List.pairwise_cons.mp (List.pairwise_append.mp hsorted).2.1
  have hlast := (List.pairwise_append.mp hrest).2.2 i hi c List.mem_cons_self
  have hclears := h.clears w (hperm.mem_iff.mp (by simp)) hopen i (hperm.mem_iff.mp (by simp [hi]))
  rcases hclears with hwithin | hbefore | hbehind
  · exact hwithin
  · exact absurd hbefore (hfirst i (by simp [hi]))
  · exact absurd (hbehind c hc) hlast

/-- Two nodes of which neither is closed inside of the other are at the same place. -/
theorem opensAlike_of_crossing {e : Insertion} (hopen : w.phase = .open) (hiopen : i.phase = .open)
    (hoffset : w.offset = w.owner.start) (hioffset : i.offset = i.owner.start) (hc : c.Closes w)
    (he : e.Closes i) (hinner : i.owner.Within w.owner) (houter : w.owner.Within i.owner)
    (hfirst : ¬ i.IsBefore w) (hlast : ¬ e.IsBefore c) : w.OpensAlike i := by
  obtain ⟨hstart, hstop⟩ := hinner
  obtain ⟨hstart', hstop'⟩ := houter
  simp only [Insertion.IsBefore, hopen, hiopen, Draft.tiebreak, true_and] at hfirst
  simp only [Insertion.IsBefore, hc.phase, he.phase, hc.offset, he.offset, hc.rank, he.rank,
    Draft.tiebreak, true_and] at hlast
  exact ⟨hopen, hiopen, by omega, by omega, by omega⟩

/-- A node that is opened between the texts around another is closed there. -/
theorem closed_of_between {front middle back : List Insertion}
    (h : Layout d hoistAt least nodes xs)
    (hperm : (front ++ w :: (middle ++ c :: back)).Perm xs)
    (hsorted : (front ++ w :: (middle ++ c :: back)).Pairwise fun i j => ¬ j.IsBefore i)
    (hopen : w.phase = .open) (hc : c.Closes w) (hi : i ∈ middle) (hiopen : i.phase = .open) :
    ∃ e ∈ middle, e.Closes i := by
  have himem : i ∈ xs := hperm.mem_iff.mp (by simp [hi])
  obtain ⟨e, he, hadjacent⟩ := h.closed i himem hiopen
  have hbefore := isBefore_of_closes h himem hiopen he
  have hemem := hperm.mem_iff.mpr (hadjacent.subset (List.mem_cons_of_mem i List.mem_cons_self))
  obtain ⟨-, hbehind, hfront⟩ := List.pairwise_append.mp hsorted
  obtain ⟨hfirst, hrest⟩ := List.pairwise_cons.mp hbehind
  obtain ⟨-, hback, hcross⟩ := List.pairwise_append.mp hrest
  rcases List.mem_append.mp hemem with hemem | hemem
  · exact absurd hbefore (hfront e hemem i (by simp [hi]))
  rcases List.mem_cons.mp hemem with rfl | hemem
  · have hphase := he.phase
    rw [hopen] at hphase
    cases hphase
  rcases List.mem_append.mp hemem with hemem | hemem
  · exact ⟨e, hemem, he⟩
  exfalso
  -- otherwise the outer node is closed inside of the inner one, so the two are at the same place
  have hnot : ¬ e.IsBefore c := by
    rcases List.mem_cons.mp hemem with rfl | hemem
    · unfold Insertion.IsBefore
      omega
    · exact (List.pairwise_cons.mp hback).1 e hemem
  have hinner := within_of_between h hperm hsorted hopen hc hi
  have houter : c.owner.Within i.owner := by
    rcases h.clears i himem hiopen c (hperm.mem_iff.mp (by simp)) with hwithin | hc' | he'
    · exact hwithin
    · exact absurd hc' (hcross i hi c List.mem_cons_self)
    · exact absurd (he' e he) hnot
  rw [hc.owner] at houter
  have hdistinct := (hperm.pairwise_iff fun hij => mt Insertion.OpensAlike.symm hij).mpr h.distinct
  have halike := (List.pairwise_cons.mp (List.pairwise_append.mp hdistinct).2.1).1 i (by simp [hi])
  exact halike (opensAlike_of_crossing hopen hiopen
    (offset_of_open h (hperm.mem_iff.mp (by simp)) hopen).1 (offset_of_open h himem hiopen).1 hc he
    hinner houter (hfirst i (by simp [hi])) hnot)

/-- **The texts around a node enclose its part of the source.** -/
theorem encloses_between {front middle back : List Insertion}
    (h : Layout d hoistAt least (p.body.map .statement) xs)
    (hcut : IsCut d.source Insertion.offset (byteLength d.source) 0
      (front ++ w :: (middle ++ c :: back)))
    (hperm : (front ++ w :: (middle ++ c :: back)).Perm xs)
    (hsorted : (front ++ w :: (middle ++ c :: back)).Pairwise fun i j => ¬ j.IsBefore i)
    (hopen : w.phase = .open) (hc : c.Closes w) :
    d.Encloses p w c (weave d.source Insertion.offset c.offset w.offset middle) := by
  have hw : w ∈ xs := hperm.mem_iff.mp (by simp)
  have howns : ∀ i ∈ xs, p.Owns i := by
    intro i hi
    obtain ⟨n, hn, hbelongs⟩ := h.belongs i hi
    obtain ⟨s, hs, rfl⟩ := List.mem_map.mp hn
    exact ⟨s, hs, hbelongs.node⟩
  refine ⟨howns w hw, hc, ?_, ?_, ?_⟩
  · rw [kept_weave hcut.between, Draft.slice, (offset_of_open h hw hopen).1, hc.offset]
  · rw [inserted_weave]
    intro i hi
    exact ⟨howns i (hperm.mem_iff.mp (by simp [hi])),
      within_of_between h hperm hsorted hopen hc hi⟩
  · rw [inserted_weave]
    exact fun i hi => closed_of_between h hperm hsorted hopen hc hi

/-! ## Whole scripts -/

/-- **The output is the source of a script with texts inserted**: without all insertions it is the
source again, and every text that opens a node is followed by one that closes it. -/
structure Draft.Weaves (d : Draft) (p : Program) (parts : List (Text.Part Insertion))
    (out : String) : Prop where
  kept : kept parts = d.source
  shown : shown d.shownText parts = out.toList
  inserted : (inserted parts).Perm (insertions d p)
  nested : ∀ opening ∈ insertions d p, opening.phase = .open → ∃ closing before inside after,
    [opening, closing] <:+: insertions d p ∧
    parts = before ++ .inserted opening :: (inside ++ .inserted closing :: after) ∧
    d.Encloses p opening closing inside

/-- **Instrumenting a script only inserts**, and the texts around its nodes nest as the nodes do. -/
theorem instrument_weaves {source out : String} {wrapExpressions : Bool}
    (h : instrument source wrapExpressions = .ok out) :
    ∃ p parts, parseScript source instrumentLabel = .ok p ∧
      Draft.Weaves ⟨source.toList, analyze p, wrapExpressions⟩ p parts out := by
  cases hp : parseScript source instrumentLabel with
  | error e =>
    rw [instrument, hp] at h
    cases h
  | ok p =>
    rw [instrument, hp] at h
    let d : Draft := ⟨source.toList, analyze p, wrapExpressions⟩
    have hout : out = String.ofList (editSlice d.source 0 (byteLength d.source)
        (d.scriptEdits (insertions d p))) := (Except.ok.inj h).symm
    obtain ⟨ts, stop, hlex, hsequence⟩ := sequence_of_parseScript hp
    have hlayout := layout_insertions (d := d) (located_of_lex hlex).1 hsequence
    have hperm := d.inOrder_perm (insertions d p)
    have hsorted := d.pairwise_inOrder (insertions d p)
    have hcut := isCut_of_layout hlayout hperm hsorted
    refine ⟨p, weave d.source Insertion.offset (byteLength d.source) 0
      (d.inOrder (insertions d p)), rfl, ?_, ?_, ?_, ?_⟩
    · rw [kept_weave hcut, slice_all]
    · rw [hout, d.scriptEdits_eq, editSlice_insertions hcut, String.toList_ofList]
    · rwa [inserted_weave]
    · intro opening hmem hopen
      obtain ⟨closing, hcloses, hadjacent⟩ := hlayout.closed opening hmem hopen
      have hclosing := hadjacent.subset (List.mem_cons_of_mem opening List.mem_cons_self)
      obtain ⟨front, middle, back, heq⟩ :=
        split_around hlayout hperm hsorted hmem hopen hcloses hclosing
      rw [heq] at hcut hperm hsorted
      refine ⟨closing, weave d.source Insertion.offset opening.offset 0 front, _,
        weave d.source Insertion.offset (byteLength d.source) closing.offset back, hadjacent, ?_,
        encloses_between hlayout hcut hperm hsorted hopen hcloses⟩
      rw [heq, weave_append, weave_append]

/-- A check inside of another one. -/
theorem instrument_weaves_nested_call :
    instrument "f(g(x))" true =
      .ok "f(__SerializableJs.ensureSerializable(g(__SerializableJs.ensureSerializable(x))))" ∧
    ∃ p parts, parseScript "f(g(x))" instrumentLabel = .ok p ∧
      Draft.Weaves ⟨"f(g(x))".toList, analyze p, true⟩ p parts
        "f(__SerializableJs.ensureSerializable(g(__SerializableJs.ensureSerializable(x))))" := by
  have h : instrument "f(g(x))" true =
      .ok "f(__SerializableJs.ensureSerializable(g(__SerializableJs.ensureSerializable(x))))" := by
    cbv
  exact ⟨h, instrument_weaves h⟩

end Stasis.Script
