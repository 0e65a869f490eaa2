import Mathlib
import Stasis.Proofs.Walk

/-!
# Envelopes of data

* `Realm.IsWrittenAs`: the envelope has one entry for every object in the graph of a value, and no
  other one.
* `yields_serialize_inert`: every inert graph has such an envelope.
-/

namespace Stasis

/-- The envelope has one entry for every object in the graph of `v`, and no other one. -/
structure Realm.IsWrittenAs (r : Realm) (v : Value) (ρ : References) (e : Envelope) : Prop where
  sound : ρ.Sound
  le : r.references.Le ρ
  root : e.root = r.written ρ v
  entry : ∀ id o, r.Inner v id → r.store.get id = .ok o → ∃ reference,
    ρ.objects.find? id = some reference ∧ e.entries.find? reference = some (r.writtenEntry ρ o)
  only : ∀ reference, reference ∈ e.entries.keys →
    ∃ id, r.Inner v id ∧ ρ.objects.find? id = some reference
  /-- A symbol that is not shared goes by its reference. -/
  symbol : ∀ id, (r.Holds v (.symbol id) ∨ ∃ x o, r.Inner v x ∧ r.store.get x = .ok o
      ∧ Key.symbol id ∈ o.properties.keys) →
    r.symbols.keyFor? id = none → ∃ reference, ρ.symbols.find? id = some reference

variable {r : Realm} {v w : Value} {ρ : References} {p : Pass}

/-! ## Flat and safe values -/

theorem isFlat_taggedNumber (x : Float) : (taggedNumber x).IsFlat := by
  unfold taggedNumber jsonOfNumber
  repeat' split
  all_goals trivial

theorem isFlat_written (r : Realm) (ρ : References) (w : Value) : (r.written ρ w).IsFlat := by
  cases w with
  | number x => exact isFlat_taggedNumber x
  | symbol id =>
    simp only [Realm.written, Realm.writtenSymbol]
    split <;> trivial
  | object id =>
    simp only [Realm.written]
    split <;> trivial
  | _ => trivial

theorem unsafeIn?_taggedNumber {x : Float} (hx : IsKept x) (place : String) :
    (taggedNumber x).unsafeIn? place = none := by
  unfold IsKept taggedNumber jsonOfNumber at *
  repeat' split
  all_goals first | rfl | skip
  all_goals
    simp_all [Tagged.unsafeIn?, Tagged.number?]

theorem unsafeIn?_written (hw : ∀ x, w = .number x → IsKept x) (place : String) :
    (r.written ρ w).unsafeIn? place = none := by
  cases w with
  | number x => exact unsafeIn?_taggedNumber (hw x rfl) place
  | symbol id =>
    simp only [Realm.written, Realm.writtenSymbol]
    split <;> rfl
  | object id =>
    simp only [Realm.written]
    split <;> rfl
  | _ => rfl

/-! ## What an entry refers to -/

/-- Everything that an entry refers to. -/
def Entry.mentions (e : Entry) : List Tagged := e.values ++ payloadValues e.payload

/-- The values in a payload are the written forms of those that the kind holds. -/
theorem mem_values_writtenPayload_iff {k : Kind} (hk : k.IsInert) {t : Tagged} :
    t ∈ (r.writtenPayload ρ k).values ↔ ∃ w ∈ k.values, t = r.written ρ w := by
  cases k with
  | map entries =>
    simp only [Realm.writtenPayload, Payload.values, Kind.values, List.mem_flatMap, List.mem_map,
      List.mem_cons, List.not_mem_nil, or_false]
    constructor
    · rintro ⟨q, ⟨c, hc, rfl⟩, rfl | rfl⟩
      · exact ⟨_, ⟨c, hc, Or.inl rfl⟩, rfl⟩
      · exact ⟨_, ⟨c, hc, Or.inr rfl⟩, rfl⟩
    · rintro ⟨w, ⟨c, hc, rfl | rfl⟩, rfl⟩
      · exact ⟨_, ⟨c, hc, rfl⟩, Or.inl rfl⟩
      · exact ⟨_, ⟨c, hc, rfl⟩, Or.inr rfl⟩
  | set elements =>
    simp only [Realm.writtenPayload, Payload.values, Kind.values, List.mem_map]
    constructor
    · rintro ⟨key, hkey, rfl⟩
      exact ⟨_, ⟨key, hkey, rfl⟩, rfl⟩
    · rintro ⟨w, ⟨key, hkey, rfl⟩, rfl⟩
      exact ⟨key, hkey, rfl⟩
  | promise state => cases state <;> simp [Realm.writtenPayload, Payload.values, Kind.values]
  | function _ => exact hk.elim
  | error => exact hk.elim
  | _ => simp [Realm.writtenPayload, Payload.values, Kind.values]

theorem payloadValues_writtenEntry (r : Realm) (ρ : References) (o : Object)
    (hk : o.kind.IsInert) :
    payloadValues (r.writtenEntry ρ o).payload = (r.writtenPayload ρ o.kind).values := by
  have hflat : ∀ t ∈ (r.writtenPayload ρ o.kind).values, t.IsFlat := by
    intro t ht
    obtain ⟨w, -, rfl⟩ := (mem_values_writtenPayload_iff hk).mp ht
    exact isFlat_written r ρ w
  cases ht : o.kind.type? with
  | some type =>
    simp only [Realm.writtenEntry, ht, Option.map_some, Option.getD_some]
    exact Payload.payloadValues_toJson hflat
  | none =>
    cases hkind : o.kind <;> rw [hkind] at ht <;> cases ht
    simp only [Realm.writtenEntry, hkind]
    rfl

/-- What an entry refers to is written of what its object refers to. -/
theorem mem_mentions {o : Object} (hk : o.kind.IsInert) {t : Tagged}
    (ht : t ∈ (r.writtenEntry ρ o).mentions) :
    ∃ w, t = r.written ρ w ∧ (w ∈ o.refers ∨ w = .undefined ∨ w = .null) := by
  have hhalf : ∀ (id : Option ObjectId) (other : Value),
      (∀ f ∈ id, Value.object f ∈ o.refers) → (other = .undefined ∨ other = .null) →
        ∃ w, r.written ρ ((id.map Value.object).getD other) = r.written ρ w
          ∧ (w ∈ o.refers ∨ w = .undefined ∨ w = .null) := by
    intro id other hid hother
    cases id with
    | none => exact ⟨other, rfl, Or.inr hother⟩
    | some f => exact ⟨_, rfl, Or.inl (hid f rfl)⟩
  rw [Entry.mentions, payloadValues_writtenEntry r ρ o hk, List.mem_append] at ht
  rcases ht with ht | ht
  · simp only [Entry.values, Realm.writtenEntry, List.mem_cons, List.mem_flatMap, List.mem_map,
      List.mem_append, Option.mem_toList] at ht
    rcases ht with rfl | ⟨q, ⟨c, hc, rfl⟩, rfl | ht⟩
    · exact hhalf _ _ (fun f hf => o.prototype_mem_refers hf) (Or.inr rfl)
    · exact ⟨_, rfl, Or.inl (o.property_mem_refers hc).1⟩
    · obtain ⟨key, d⟩ := c
      have hd := (o.property_mem_refers hc).2
      cases d with
      | data u w e c =>
        simp only [Realm.writtenSlot, Option.some.injEq, reduceCtorEq, or_false] at ht
        exact ⟨u, ht.symm, Or.inl (hd u (by simp [Descriptor.values]))⟩
      | accessor g s e c =>
        simp only [Realm.writtenSlot, Option.some.injEq, reduceCtorEq, false_or] at ht
        rcases ht with rfl | rfl
        · exact hhalf g _ (fun f hf => hd _ (by cases hf; simp [Descriptor.values])) (Or.inl rfl)
        · exact hhalf s _ (fun f hf => hd _ (by cases hf; simp [Descriptor.values])) (Or.inl rfl)
  · obtain ⟨w, hw, rfl⟩ := (mem_values_writtenPayload_iff hk).mp ht
    exact ⟨w, rfl, Or.inl (o.kind_values_mem_refers hw)⟩

/-- Every value that an object refers to is in its entry. -/
theorem written_mem_mentions {o : Object} (hk : o.kind.IsInert) (hw : w ∈ o.values) :
    r.written ρ w ∈ (r.writtenEntry ρ o).mentions := by
  rw [Entry.mentions, payloadValues_writtenEntry r ρ o hk, List.mem_append]
  rcases Object.mem_values_iff.mp hw with ⟨id, hid, rfl⟩ | ⟨key, d, hkd, hw⟩ | hw
  · refine Or.inl (List.mem_cons.mpr (Or.inl ?_))
    simp only [Realm.writtenEntry, hid]
    rfl
  · refine Or.inl (List.mem_cons_of_mem _ (List.mem_flatMap.mpr ⟨_, List.mem_map_of_mem hkd, ?_⟩))
    refine List.mem_cons_of_mem _ ?_
    cases d with
    | data u w' e c =>
      obtain rfl := List.mem_singleton.mp hw
      simp [Realm.writtenSlot]
    | accessor g s e c =>
      simp only [Descriptor.values, List.mem_map, List.mem_append, Option.mem_toList] at hw
      obtain ⟨f, rfl | rfl, rfl⟩ := hw <;> simp [Realm.writtenSlot]
  · exact Or.inr ((mem_values_writtenPayload_iff hk).mpr ⟨w, hw, rfl⟩)

/-! ## The envelope of a value -/

/-- The finished entries are those of the places. -/
theorem finishedEntries_eq_ok_iff {l : List (String × Option Entry)} {l' : List (String × Entry)} :
    finishedEntries l = .ok l' ↔ l = l'.map fun q => (q.1, some q.2) := by
  constructor
  · intro h
    induction l generalizing l' with
    | nil =>
      cases h
      rfl
    | cons q l ih =>
      obtain ⟨reference, _ | entry⟩ := q
      · cases h
      · unfold finishedEntries at h
        cases hl : finishedEntries l with
        | error cause =>
          rw [hl] at h
          cases h
        | ok rest =>
          rw [hl] at h
          cases h
          rw [List.map_cons, ← ih hl]
  · rintro rfl
    induction l' with
    | nil => rfl
    | cons q l' ih =>
      rw [List.map_cons, finishedEntries, ih]
      rfl

/-- Places that are all filled hold entries. -/
theorem exists_finished {l : List (String × Option Entry)} (h : ∀ q ∈ l, q.2 ≠ none) :
    ∃ l' : List (String × Entry), l = l'.map fun q => (q.1, some q.2) := by
  induction l with
  | nil => exact ⟨[], rfl⟩
  | cons q l ih =>
    obtain ⟨hq, hl⟩ := List.forall_mem_cons.mp h
    obtain ⟨l', rfl⟩ := ih hl
    obtain ⟨reference, _ | entry⟩ := q
    · exact absurd rfl hq
    · exact ⟨(reference, entry) :: l', rfl⟩

/-- Everything in the graph is noted once the value is, and no place is empty. -/
theorem Realm.WalkInv.noted (h : r.WalkInv v ρ p)
    (hfull : ∀ reference, p.entries.find? reference ≠ some none) (hv : r.IsNoted ρ p v)
    (hw : r.Holds v w) : r.IsNoted ρ p w := by
  induction hw with
  | self => exact hv
  | step held inner found refers ih =>
    obtain ⟨reference, hf, hc⟩ := ih inner
    obtain ⟨x, hx⟩ := Table.mem_keys_iff.mp (Table.contains_iff.mp hc)
    obtain _ | entry := x
    · exact absurd hx (hfull reference)
    · exact (h.done reference entry _ _ hx hf found).2 _ (Object.values_mem_refers _ refers)

/-- A walk that is over has an entry for every object. -/
theorem Realm.WalkInv.isWrittenAs (h : r.WalkInv v ρ p)
    (hle : r.references.Le ρ) (hfull : ∀ reference, p.entries.find? reference ≠ some none)
    (hv : r.IsNoted ρ p v) {e : Envelope} (hroot : e.root = r.written ρ v)
    (he : p.entries = e.entries.map some) : r.IsWrittenAs v ρ e := by
  have hfind : ∀ reference, p.entries.find? reference = (e.entries.find? reference).map some :=
    fun reference => by rw [he, Table.find?_map]
  have hnoted : ∀ w, r.Holds v w → r.IsNoted ρ p w := fun w hw => h.noted hfull hv hw
  have hdone : ∀ id o, r.Inner v id → r.store.get id = .ok o → ∃ reference entry,
      ρ.objects.find? id = some reference ∧ p.entries.find? reference = some (some entry) := by
    intro id o hid ho
    obtain ⟨reference, hf, hc⟩ := hnoted _ hid.1 hid.2
    obtain ⟨x, hx⟩ := Table.mem_keys_iff.mp (Table.contains_iff.mp hc)
    obtain _ | entry := x
    · exact absurd hx (hfull reference)
    · exact ⟨reference, entry, hf, hx⟩
  refine ⟨h.sound, hle, hroot, ?_, ?_, ?_⟩
  · intro id o hid ho
    obtain ⟨reference, entry, hf, hx⟩ := hdone id o hid ho
    refine ⟨reference, hf, ?_⟩
    obtain ⟨rfl, -⟩ := h.done reference entry id o hx hf ho
    rw [hfind] at hx
    simpa using hx
  · intro reference hr
    refine h.entries reference (Table.contains_iff.mpr ?_)
    rw [he, Table.keys_map]
    exact hr
  · rintro id (hid | ⟨x, o, hx, ho, hkey⟩)
    · exact hnoted _ hid
    · obtain ⟨reference, entry, hf, hentry⟩ := hdone x o hx ho
      exact (h.done reference entry x o hentry hf ho).2 (.symbol id)
        (List.mem_append_left _ (List.mem_map_of_mem hkey))

theorem Realm.placeless_le (r : Realm) (ρ : References) (p : Pass) :
    r.placeless ρ p ≤ r.store.size :=
  (Finset.card_filter_le _ _).trans (Finset.card_range _).le

/-- The walk from a value through its graph. -/
theorem yields_walkFrom (hsound : r.Sound) (hgraph : r.IsInertGraph v) {depth : ℕ}
    (hdepth : r.store.size < depth) :
    ∃ ρ e, Yields (@walkFrom (engine depth) {} false v none) r e (r.giving ρ)
      ∧ r.IsWrittenAs v ρ e := by
  obtain ⟨k, rfl⟩ : ∃ k, depth = k + 1 := ⟨depth - 1, by omega⟩
  let _ : Machine := engine (k + 1)
  let p : Pass := { entries := {}, stop := false }
  have hinv : r.WalkInv v r.references p :=
    ⟨hsound.references, rfl, fun _ h => (Bool.false_ne_true h).elim, fun _ _ _ _ h => by cases h⟩
  have hk : r.placeless r.references p ≤ k := (r.placeless_le _ _).trans (by omega)
  obtain ⟨ρ, p', hy, hinv', hρ, hp, hn, -⟩ :=
    Realm.writes_suspend hgraph hsound.types k v (fun _ => .self) r.references p hinv hk
  have hfull : ∀ reference, p'.entries.find? reference ≠ some none := by
    intro reference hx
    cases hp.finished reference hx
  obtain ⟨l, hmap⟩ := exists_finished (l := p'.entries.entries) (by
    rintro ⟨reference, x⟩ hq rfl
    exact hfull reference (Table.find?_eq_some_iff.mpr hq))
  refine ⟨ρ, { entries := Table.ofList l, root := r.written ρ v }, ?_, ?_⟩
  · refine Yields.bind hy ?_
    have hentries : Yields (ofExcept (finishedEntries p'.entries.entries)) (r.giving ρ) l
        (r.giving ρ) := by
      rw [finishedEntries_eq_ok_iff.mpr hmap]
      exact yields_ofExcept l _
    exact hentries.bind (Yields.pure _ _)
  · exact hinv'.isWrittenAs hρ hfull (hn v (List.mem_singleton_self v)) rfl
      (Table.eq_map_ofList hmap)

/-- The entry under a reference is that of an object in the graph. -/
theorem Realm.IsWrittenAs.find (hgraph : r.IsInertGraph v) {e : Envelope} (he : r.IsWrittenAs v ρ e)
    {reference : String} {entry : Entry} (h : e.entries.find? reference = some entry) :
    ∃ id o, r.Inner v id ∧ r.store.get id = .ok o ∧ ρ.objects.find? id = some reference
      ∧ entry = r.writtenEntry ρ o := by
  obtain ⟨id, hid, hf⟩ := he.only reference (Table.mem_keys_iff.mpr ⟨entry, h⟩)
  obtain ⟨o, ho⟩ := hgraph.found id hid.1
  obtain ⟨reference', hf', hentry⟩ := he.entry id o hid ho
  rw [hf] at hf'
  cases hf'
  rw [h] at hentry
  exact ⟨id, o, hid, ho, hf, Option.some.inj hentry⟩

/-- A number that an object refers to is one that its graph holds. -/
theorem number_mem_values {o : Object} {x : Float} (h : Value.number x ∈ o.refers) :
    Value.number x ∈ o.values := by
  rcases List.mem_append.mp h with h | h
  · obtain ⟨key, -, hkey⟩ := List.mem_map.mp h
    cases key <;> cases hkey
  · exact h

theorem checkSafe_of_isWrittenAs (hgraph : r.IsInertGraph v) (hnumbers : r.KeepsNumbers v)
    {e : Envelope} (he : r.IsWrittenAs v ρ e) : e.checkSafe = .ok () := by
  have hsafe : ∀ w, (∀ x, w = .number x → r.Holds v w) → ∀ place,
      (r.written ρ w).unsafeIn? place = none := by
    intro w hw place
    refine unsafeIn?_written (fun x hx => hnumbers.numbers x ?_) place
    have := hw x hx
    rwa [hx] at this
  have hroot : e.root.unsafeIn? "serialized" = none := by
    rw [he.root]
    exact hsafe v (fun _ _ => .self) _
  have hall : ∀ q ∈ e.entries.entries, ∀ t ∈ q.2.mentions, t.unsafeIn? q.1 = none := by
    rintro ⟨reference, entry⟩ hq t ht
    obtain ⟨id, o, hid, ho, -, rfl⟩ := he.find hgraph (Table.find?_eq_some_iff.mpr hq)
    obtain ⟨w, rfl, hw⟩ := mem_mentions (hgraph.inert id o hid ho) ht
    refine hsafe w (fun x hx => ?_) reference
    subst hx
    rcases hw with hw | hw | hw
    · exact .step hid.1 hid.2 ho (number_mem_values hw)
    · cases hw
    · cases hw
  unfold Envelope.checkSafe
  have hnone : (e.root.unsafeIn? "serialized" :: e.entries.entries.flatMap fun q =>
      (q.2.values ++ payloadValues q.2.payload).map fun t => t.unsafeIn? q.1).findSome? id = none := by
    rw [List.findSome?_eq_none_iff]
    intro x hx
    rcases List.mem_cons.mp hx with rfl | hx
    · exact hroot
    · obtain ⟨q, hq, hx⟩ := List.mem_flatMap.mp hx
      obtain ⟨t, ht, rfl⟩ := List.mem_map.mp hx
      exact hall q hq t ht
  simp only [hnone]

/-- The envelope of a walk is the answer, if an interchange text can hold it. -/
theorem Yields.serialize_of_walkFrom {e : Envelope} {r' : Realm} {d : ℕ}
    (h : Yields (@walkFrom (engine d) {} false v none) r e r')
    (hsafe : e.checkSafe = .ok ()) :
    ∃ events, Yields (@serialize (engine d) v {}) r e { r' with events } := by
  suffices hbody : Yields (do
      let e ← @walkFrom (engine d) {} false v none
      if (← get).config.verifyWireFormat then ofExcept e.checkSafe
      return e) r e r' from ⟨_, hbody.noted (Yields.pure _ _)⟩
  refine h.bind ((yields_get _).bind ?_)
  split
  · rw [hsafe]
    exact (yields_ofExcept () _).bind (Yields.pure e _)
  · exact Yields.pure e _

/-- **Every inert graph has an envelope** with one entry for every object. Only references are given for
it, and an event is noted. -/
theorem yields_serialize_inert (hsound : r.Sound) (hgraph : r.IsInertGraph v)
    (hnumbers : r.KeepsNumbers v) {d : ℕ} (hdepth : r.store.size < d) :
    ∃ ρ e events, Yields (@serialize (engine d) v {}) r e { r.giving ρ with events }
      ∧ r.IsWrittenAs v ρ e := by
  obtain ⟨ρ, e, hy, he⟩ := yields_walkFrom hsound hgraph hdepth
  obtain ⟨events, hserialize⟩ := hy.serialize_of_walkFrom (checkSafe_of_isWrittenAs hgraph hnumbers he)
  exact ⟨ρ, e, events, hserialize, he⟩

/-- Graphs of data are inert. -/
theorem yields_serialize (hsound : r.Sound) (hdata : r.IsDataGraph v)
    (hnumbers : r.KeepsNumbers v) {d : ℕ} (hdepth : r.store.size < d) :
    ∃ ρ e events, Yields (@serialize (engine d) v {}) r e { r.giving ρ with events }
      ∧ r.IsWrittenAs v ρ e :=
  yields_serialize_inert hsound hdata.isInertGraph hnumbers hdepth

end Stasis
