import Mathlib
import Stasis.Proofs.Suspended

/-!
# Closed envelopes

An envelope is closed if every reference in it has one entry, and every entry is referred to from
its root, directly or through other entries.

* `Reached`: what is referred to from values, through the entries that are there.
* `Envelope.IsClosed`: closed envelopes.
* `Pass.Explored`: what a walk has added to a pass: entries that are done, refer to entries only, and
  are reached from the values that the walk has written.
* `Pass.Explored.trans`, `Pass.Explored.fill`: one part of a walk after another, and the entry of an
  object around the walk through what it refers to.
-/

namespace Stasis

/-! ## Envelopes -/

/-- The reference stands in one of the values, or in an entry whose reference does. -/
inductive Reached (find : String → Option Entry) (values : List Tagged) : String → Prop
  | here {reference : String} (h : Tagged.entry reference ∈ values) : Reached find values reference
  | behind {reference reference' : String} {entry : Entry} (h : Reached find values reference)
    (found : find reference = some entry) (mentioned : Tagged.entry reference' ∈ entry.mentions) :
    Reached find values reference'

namespace Envelope

/-- Every tagged value in an envelope: its root, and what stands in its entries. -/
def mentions (e : Envelope) : List Tagged := e.root :: e.entries.values.flatMap Entry.mentions

/-- Every reference in the envelope has exactly one entry, and every entry is referred to from the
root. -/
structure IsClosed (e : Envelope) : Prop where
  entry : ∀ reference, Tagged.entry reference ∈ e.mentions → e.entries.keys.count reference = 1
  reached : ∀ reference ∈ e.entries.keys, Reached e.entries.find? [e.root] reference

end Envelope

namespace Reached

variable {find find' : String → Option Entry} {values values' : List Tagged} {reference : String}

theorem mono (h : Reached find values reference)
    (hfind : ∀ reference entry, find reference = some entry → find' reference = some entry)
    (hvalues : ∀ reference, Tagged.entry reference ∈ values → Reached find' values' reference) :
    Reached find' values' reference := by
  induction h with
  | here h => exact hvalues _ h
  | behind _ found mentioned ih => exact .behind ih (hfind _ _ found) mentioned

end Reached

/-! ## What a walk adds -/

/-- An interchange text can hold the value. -/
def Tagged.IsSafe (t : Tagged) : Prop := ∀ place, t.unsafeIn? place = none

theorem Tagged.IsSafe.isFlat {t : Tagged} (h : t.IsSafe) : t.IsFlat := by
  cases t with
  | simple value =>
    cases value with
    | array items => cases h ""
    | object fields => cases h ""
    | _ => trivial
  | _ => trivial

namespace Pass

/-- The entry of a reference, if it is done. -/
def done (p : Pass) (reference : String) : Option Entry := (p.entries.find? reference).join

theorem done_eq_some_iff {p : Pass} {reference : String} {entry : Entry} :
    p.done reference = some entry ↔ p.entries.find? reference = some (some entry) := by
  rw [done, Option.join_eq_some_iff]

/-- The value is safe, and its object has its place. -/
structure Knows (p : Pass) (t : Tagged) : Prop where
  safe : t.IsSafe
  place : ∀ reference, t = .entry reference → p.entries.contains reference = true

/-- What a walk that has written the values has added to the first pass. -/
structure Explored (p p' : Pass) (values : List Tagged) : Prop where
  le : p.Le p'
  knows : ∀ t ∈ values, p'.Knows t
  /-- New entries refer to entries only. -/
  closed : ∀ reference entry, p'.done reference = some entry →
    p.entries.contains reference = false → ∀ t ∈ entry.mentions, p'.Knows t
  reached : ∀ reference, p'.entries.contains reference = true →
    p.entries.contains reference = false → Reached p'.done values reference

variable {p p' p'' : Pass} {t : Tagged} {values values' : List Tagged} {reference : String}

theorem Knows.mono (h : p.Knows t) (hp : p.Le p') : p'.Knows t :=
  ⟨h.safe, fun reference ht => hp.contains reference (h.place reference ht)⟩

theorem Le.done (h : p.Le p') {entry : Entry} (hd : p.done reference = some entry) :
    p'.done reference = some entry :=
  done_eq_some_iff.mpr (h.kept reference _ (done_eq_some_iff.mp hd))

theorem Explored.refl (p : Pass) : p.Explored p [] where
  le := .refl p
  knows := fun _ h => absurd h List.not_mem_nil
  closed := fun reference entry hd hc => by
    rw [Table.contains_eq_false_iff] at hc
    simp [Pass.done, hc] at hd
  reached := fun _ h hc => absurd (h.symm.trans hc) (by decide)

/-- **One part of a walk after another.** -/
theorem Explored.trans (h : p.Explored p' values) (h' : p'.Explored p'' values') :
    p.Explored p'' (values' ++ values) := by
  refine ⟨h.le.trans h'.le, fun t ht => ?_, fun reference entry hd hc => ?_, fun reference hp hc => ?_⟩
  · rcases List.mem_append.mp ht with ht | ht
    · exact h'.knows t ht
    · exact (h.knows t ht).mono h'.le
  · cases hc' : p'.entries.contains reference with
    | false => exact h'.closed reference entry hd hc'
    | true =>
      obtain ⟨x, hx⟩ := Table.mem_keys_iff.mp (Table.contains_iff.mp hc')
      have hx' := h'.le.kept reference x hx
      rw [done_eq_some_iff.mp hd] at hx'
      cases hx'
      exact fun t ht => (h.closed reference entry (done_eq_some_iff.mpr hx) hc t ht).mono h'.le
  · cases hc' : p'.entries.contains reference with
    | false =>
      exact (h'.reached reference hp hc').mono (fun _ _ h => h)
        fun _ hm => .here (List.mem_append_left _ hm)
    | true =>
      exact (h.reached reference hc' hc).mono (fun _ _ => h'.le.done)
        fun _ hm => .here (List.mem_append_right _ hm)

/-- Which values have been written matters, not in which order or how often. -/
theorem Explored.congr (h : p.Explored p' values) (hv : ∀ t, t ∈ values' ↔ t ∈ values) :
    p.Explored p' values' where
  le := h.le
  knows := fun t ht => h.knows t ((hv t).mp ht)
  closed := h.closed
  reached := fun reference hp hc =>
    (h.reached reference hp hc).mono (fun _ _ h => h) fun _ hm => .here ((hv _).mpr hm)

/-- A safe value that stands for no entry. -/
theorem Explored.cons (h : p.Explored p' values) (hsafe : t.IsSafe)
    (hplace : ∀ reference, t = .entry reference → p'.entries.contains reference = true) :
    p.Explored p' (t :: values) where
  le := h.le
  knows := List.forall_mem_cons.mpr ⟨⟨hsafe, hplace⟩, h.knows⟩
  closed := h.closed
  reached := fun reference hp hc =>
    (h.reached reference hp hc).mono (fun _ _ h => h) fun _ hm => .here (List.mem_cons_of_mem _ hm)

/-- The pass in which an entry has a place, empty or not. -/
def put (p : Pass) (reference : String) (x : Option Entry) : Pass :=
  { p with entries := p.entries.insert reference x }

theorem contains_put {x : Option Entry} {reference' : String} :
    (p.put reference x).entries.contains reference'
      = (decide (reference = reference') || p.entries.contains reference') := by
  unfold put Table.contains
  rw [Table.find?_insert]
  split <;> simp_all

/-- **The entry of an object around the walk through what it refers to.** Its place is taken before
the walk and filled afterwards. -/
theorem Explored.fill {entry : Entry} (hc : p.entries.contains reference = false)
    (h : (p.put reference none).Explored p' entry.mentions) :
    p.Explored (p'.put reference (some entry)) [.entry reference] := by
  have hplace : p'.entries.find? reference = some none :=
    h.le.kept reference none (by simp [put, Table.find?_insert])
  have hfind : ∀ reference', reference ≠ reference' →
      (p'.put reference (some entry)).entries.find? reference' = p'.entries.find? reference' := by
    intro reference' hne
    simp [put, Table.find?_insert, hne]
  have hknows : ∀ t, p'.Knows t → (p'.put reference (some entry)).Knows t := fun t ht =>
    ⟨ht.safe, fun reference' he => by rw [contains_put, ht.place reference' he, Bool.or_true]⟩
  have hdone : ∀ reference' entry', p'.done reference' = some entry' →
      (p'.put reference (some entry)).done reference' = some entry' := by
    intro reference' entry' hd
    by_cases he : reference = reference'
    · subst he
      rw [done_eq_some_iff, hplace] at hd
      cases hd
    · rwa [done, hfind reference' he]
  have hself : Reached (p'.put reference (some entry)).done [.entry reference] reference :=
    .here (List.mem_singleton_self _)
  have hfilled : (p'.put reference (some entry)).done reference = some entry := by
    simp [done, put, Table.find?_insert]
  refine ⟨⟨fun reference' x hx => ?_, fun reference' hx => ?_⟩, fun t ht => ?_,
    fun reference' entry' hd hc' => ?_, fun reference' hp hc' => ?_⟩
  · have hne : reference ≠ reference' := by
      rintro rfl
      rw [Table.contains_eq_false_iff] at hc
      cases hc.symm.trans hx
    rw [hfind reference' hne]
    exact h.le.kept reference' x (by simp [put, Table.find?_insert, hne, hx])
  · by_cases hne : reference = reference'
    · subst hne
      simp [put, Table.find?_insert] at hx
    · rw [hfind reference' hne] at hx
      simpa [put, Table.find?_insert, hne] using h.le.finished reference' hx
  · obtain rfl := List.mem_singleton.mp ht
    refine ⟨fun _ => rfl, ?_⟩
    rintro _ ⟨⟩
    simp [contains_put]
  · by_cases he : reference = reference'
    · subst he
      obtain rfl := Option.some.inj (hfilled.symm.trans hd)
      exact fun t ht => hknows t (h.knows t ht)
    · rw [done, hfind reference' he] at hd
      have hnew : (p.put reference none).entries.contains reference' = false := by
        simp [contains_put, he, hc']
      exact fun t ht => hknows t (h.closed reference' entry' hd hnew t ht)
  · by_cases he : reference = reference'
    · subst he
      exact hself
    · have hnew : (p.put reference none).entries.contains reference' = false := by
        simp [contains_put, he, hc']
      have hold : p'.entries.contains reference' = true := by
        simpa [contains_put, he] using hp
      exact (h.reached reference' hold hnew).mono hdone fun _ hm => .behind hself hfilled hm

end Pass

/-! ## The envelope of a walk that is over -/

/-- A walk that began with no entries ends with the entries of a closed envelope. -/
theorem Pass.Explored.isClosed {p : Pass} {stop : Bool} {e : Envelope}
    (h : Pass.Explored { entries := {}, stop } p [e.root]) (he : p.entries = e.entries.map some) :
    e.IsClosed := by
  have hfind : p.done = e.entries.find? := by
    funext reference
    rw [Pass.done, he, Table.find?_map]
    cases e.entries.find? reference <;> rfl
  have hcontains : ∀ reference, p.entries.contains reference = true ↔ reference ∈ e.entries.keys := by
    intro reference
    rw [Table.contains_iff, he, Table.keys_map]
  refine ⟨fun reference hm => ?_, fun reference hr => ?_⟩
  · refine List.count_eq_one_of_mem e.entries.nodup ((hcontains reference).mp ?_)
    rcases List.mem_cons.mp hm with hroot | hm
    · exact (h.knows _ (List.mem_singleton_self _)).place reference hroot.symm
    · obtain ⟨entry, hentry, hm⟩ := List.mem_flatMap.mp hm
      obtain ⟨q, hmem, rfl⟩ := List.mem_map.mp hentry
      have hd : p.done q.1 = some q.2 := by
        rw [hfind]
        exact Table.find?_eq_some_iff.mpr hmem
      exact (h.closed q.1 q.2 hd rfl _ hm).place reference rfl
  · have hreached := h.reached reference ((hcontains reference).mpr hr) rfl
    rwa [hfind] at hreached

/-- An interchange text can hold every value of the envelope. -/
theorem Pass.Explored.checkSafe {p : Pass} {stop : Bool} {e : Envelope}
    (h : Pass.Explored { entries := {}, stop } p [e.root]) (he : p.entries = e.entries.map some) :
    e.checkSafe = .ok () := by
  have hentry : ∀ q ∈ e.entries.entries, ∀ t ∈ q.2.mentions, t.IsSafe := by
    intro q hq t ht
    refine (h.closed q.1 q.2 ?_ rfl t ht).safe
    rw [Pass.done_eq_some_iff, he, Table.find?_map, Table.find?_eq_some_iff.mpr hq, Option.map_some]
  unfold Envelope.checkSafe
  have hnone : (e.root.unsafeIn? "serialized" :: e.entries.entries.flatMap fun q =>
      (q.2.values ++ payloadValues q.2.payload).map fun t => t.unsafeIn? q.1).findSome? id = none := by
    rw [List.findSome?_eq_none_iff]
    intro x hx
    rcases List.mem_cons.mp hx with rfl | hx
    · exact (h.knows _ (List.mem_singleton_self _)).safe _
    · obtain ⟨q, hq, hx⟩ := List.mem_flatMap.mp hx
      obtain ⟨t, ht, rfl⟩ := List.mem_map.mp hx
      exact hentry q hq t ht _
  simp only [hnone]

end Stasis
