import Mathlib
import Stasis.Proofs.Making

/-!
# Making everything that can be reached

Objects are made in the order in which they are met, and each of them is looked at once: what it
refers to is made too. At the end nothing that can be reached is missing.

* `yields_discover`: an object is made for every object in the graph.
-/

namespace Stasis

variable {S S' : Session} {r r' : Realm} {v w : Value} {ρ : References} {e : Envelope}
  {session : SessionId} {o : Object} {id : ObjectId} {n d : ℕ}

theorem yields_dependencies (htypes : r'.objectTypes = ObjectType.all)
    (hk : o.kind.IsData r.store) :
    Yields (dependencies (r.writtenEntry ρ o)) r' (r.writtenEntry ρ o).mentions r' := by
  unfold dependencies
  cases ht : o.kind.type? with
  | none =>
    have hplain : (r.writtenEntry ρ o).objectType = plainType := by simp [Realm.writtenEntry, ht]
    have hpayload : (r.writtenEntry ρ o).payload = .null := by simp [Realm.writtenEntry, ht]
    rw [if_pos hplain, Entry.mentions, hpayload, payloadValues, List.append_nil]
    exact Yields.pure _ r'
  | some type =>
    have hname : (r.writtenEntry ρ o).objectType = type.name := by simp [Realm.writtenEntry, ht]
    rw [hname, if_neg (name_ne_plainType type)]
    refine (yields_typeNamed htypes type).bind ?_
    have hdeps : type.dependencies (r.writtenEntry ρ o).payload
        = payloadValues (r.writtenEntry ρ o).payload := by
      cases hkind : o.kind with
      | function _ => rw [hkind] at hk; exact hk.elim
      | ordinary => rw [hkind] at ht; cases ht
      | _ =>
        rw [hkind] at ht
        cases ht
        rfl
    simp only [hdeps]
    exact Yields.pure _ r'

/-- What is written of an object in the graph is written of no other value. -/
theorem eq_of_written (hc : r.CanResume v ρ e n) (hid : r.Inner v id) (hw : r.IsReadable v ρ w)
    (h : r.written ρ w = r.written ρ (.object id)) : w = .object id := by
  obtain ⟨o, ho⟩ := hc.data.found id hid.1
  obtain ⟨reference, hf, -⟩ := hc.written.entry id o hid ho
  have hpath : r.hostPaths.pathOf? id = none := Table.contains_eq_false_iff.mp hid.2
  have hentry : r.written ρ (.object id) = .entry reference := by
    simp only [Realm.written, hpath, hf, Option.getD_some]
  rw [hentry] at h
  cases w with
  | object id' =>
    simp only [Realm.written] at h
    cases hpath' : r.hostPaths.pathOf? id' with
    | some path => rw [hpath'] at h; cases h
    | none =>
      have hid' : r.Inner v id' := ⟨hw, Realm.contains_of_pathOf? hpath'⟩
      obtain ⟨o', ho'⟩ := hc.data.found id' hid'.1
      obtain ⟨reference', hf', -⟩ := hc.written.entry id' o' hid' ho'
      rw [hpath', hf'] at h
      cases h
      rw [hc.written.sound.objects id' id reference' hf' hf]
  | number x =>
    simp only [Realm.written, taggedNumber] at h
    repeat' split at h
    all_goals cases h
  | symbol s =>
    simp only [Realm.written, Realm.writtenSymbol] at h
    split at h <;> cases h
  | _ => cases h

/-- The values are read one after another. -/
theorem yields_resolveAll (hc : r.CanResume v ρ e n) (hd : n ≤ d) {l : List Tagged}
    (hl : ∀ t ∈ l, ∃ w, t = r.written ρ w ∧ r.IsReadable v ρ w) :
    ∀ {r' S}, r.Making v ρ e session r' S → S.unfinished = [] →
      ∃ r'' S', Yields (forIn l PUnit.unit fun t _ => do
            let _ ← @resolve (engine (d + 3)) session t
            pure (ForInStep.yield PUnit.unit)) r' () r''
        ∧ r.Making v ρ e session r'' S' ∧ S.Le S' ∧ S'.unfinished = []
        ∧ ∀ id, r.Inner v id → r.written ρ (.object id) ∈ l → S'.Knows r ρ (.object id) := by
  induction l with
  | nil =>
    intro r' S h hun
    exact ⟨r', S, yields_forIn_nil _ r', h, Session.Le.refl S, hun,
      fun _ _ hm => absurd hm List.not_mem_nil⟩
  | cons t l ih =>
    intro r' S h hun
    obtain ⟨⟨w, rfl, hw⟩, hrest⟩ := List.forall_mem_cons.mp hl
    obtain ⟨r₁, S₁, hy₁, h₁, hle₁, hun₁, hk₁⟩ := yields_resolve hc hd h hw hun
    obtain ⟨r₂, S₂, hy₂, h₂, hle₂, hun₂, hk₂⟩ := ih hrest h₁ (hun₁.trans hun)
    refine ⟨r₂, S₂, yields_forIn_cons (hy₁.bind (Yields.pure _ r₁)) hy₂, h₂, hle₁.trans hle₂, hun₂,
      fun id hid hm => ?_⟩
    rcases List.mem_cons.mp hm with he | hm
    · obtain rfl := eq_of_written hc hid hw he.symm
      exact hk₁.mono hle₂
    · exact hk₂ id hid hm

/-- The objects that were made first have been looked at. -/
def Session.Explored (S : Session) (r : Realm) (ρ : References) (count : ℕ) : Prop :=
  ∀ i reference id o w, i < count → S.made.keys[i]? = some reference →
    ρ.objects.find? id = some reference → r.store.get id = .ok o → w ∈ o.values → S.Knows r ρ w

theorem Realm.Making.length_keys_le (h : r.Making v ρ e session r' S)
    (hc : r.CanResume v ρ e n) : S.made.keys.length ≤ e.entries.size := by
  have hsub : S.made.keys ⊆ e.entries.keys := by
    intro reference hr
    obtain ⟨w, hw⟩ := Table.mem_keys_iff.mp hr
    obtain ⟨id, id', hid, hf, -⟩ := h.inner reference w hw
    obtain ⟨o, ho⟩ := hc.data.found id hid.1
    obtain ⟨reference', hf', hentry⟩ := hc.written.entry id o hid ho
    rw [hf] at hf'
    cases hf'
    exact Table.mem_keys_iff.mpr ⟨_, hentry⟩
  have hlength : e.entries.keys.length = e.entries.size := by simp [Table.keys, Table.size]
  exact hlength ▸ (S.made.nodup.subperm hsub).length_le

/-- One round: the next object is looked at. -/
theorem yields_look (hc : r.CanResume v ρ e n) (hd : n ≤ d) (h : r.Making v ρ e session r' S)
    (hun : S.unfinished = []) {count : ℕ} {reference : String}
    (hr : S.made.keys[count]? = some reference) (hexplored : S.Explored r ρ count) :
    ∃ entry l r'' S', e.entries.find? reference = some entry
      ∧ Yields (dependencies entry) r' l r'
      ∧ Yields (forIn l PUnit.unit fun t _ => do
            let _ ← @resolve (engine (d + 3)) session t
            pure (ForInStep.yield PUnit.unit)) r' () r''
      ∧ r.Making v ρ e session r'' S' ∧ S.Le S' ∧ S'.unfinished = []
      ∧ S'.Explored r ρ (count + 1) := by
  have hρ := hc.written.sound
  obtain ⟨w, hw⟩ := Table.mem_keys_iff.mp (List.mem_of_getElem? hr)
  obtain ⟨id, id', hid, hf, -⟩ := h.inner reference w hw
  obtain ⟨o, ho⟩ := hc.data.found id hid.1
  obtain ⟨reference', hf', hentry⟩ := hc.written.entry id o hid ho
  rw [hf] at hf'
  cases hf'
  have hdata := hc.data.data id o hid ho
  have hreadable : ∀ t ∈ (r.writtenEntry ρ o).mentions,
      ∃ w, t = r.written ρ w ∧ r.IsReadable v ρ w := by
    intro t ht
    obtain ⟨u, rfl, hu⟩ := mem_mentions hdata.isInert ht
    refine ⟨u, rfl, ?_⟩
    rcases hu with hu | rfl | rfl
    · exact hc.written.isReadable_refers hc.data hc.numbers hid ho hu
    · trivial
    · trivial
  obtain ⟨r'', S', hy, h', hle, hun', hk⟩ := yields_resolveAll hc hd hreadable h hun
  have hkeys : ∀ {i}, i < S.made.keys.length → S'.made.keys[i]? = S.made.keys[i]? := by
    intro i hi
    obtain ⟨t, ht⟩ := hle.keys
    rw [← ht, List.getElem?_append_left hi]
  have hlength := (List.getElem?_eq_some_iff.mp hr).1
  refine ⟨_, _, r'', S', hentry, yields_dependencies (h.grows.types.trans hc.sound.types) hdata, hy,
    h', hle, hun', ?_⟩
  · intro i reference₁ id₁ o₁ u hi hr₁ hf₁ ho₁ hu
    rcases Nat.lt_succ_iff_lt_or_eq.mp hi with hi | rfl
    · have hr₂ : S.made.keys[i]? = some reference₁ := by
        rw [← hkeys (by omega), hr₁]
      exact (hexplored i reference₁ id₁ o₁ u hi hr₂ hf₁ ho₁ hu).mono hle
    · rw [hkeys hlength, hr] at hr₁
      cases hr₁
      obtain rfl := hρ.objects id id₁ reference hf hf₁
      rw [ho] at ho₁
      cases ho₁
      intro id₂ h₂ hhost
      subst h₂
      exact hk id₂ ⟨.step hid.1 hid.2 ho hu, hhost⟩ (written_mem_mentions hdata.isInert hu) id₂ rfl hhost

/-- Everything in the graph is known once every object that was made has been looked at. -/
theorem Session.knows_of_explored (hexplored : S.Explored r ρ S.made.keys.length)
    (hroot : S.Knows r ρ v) (hw : r.Holds v w) : S.Knows r ρ w := by
  induction hw with
  | self => exact hroot
  | @step id o w held inner found refers ih =>
    obtain ⟨id', reference, hf, hm⟩ := ih id rfl inner
    obtain ⟨i, hi, he⟩ := List.getElem_of_mem (Table.mem_keys_iff.mpr ⟨_, hm⟩)
    exact hexplored i reference id o w hi (List.getElem?_eq_some_iff.mpr ⟨hi, he⟩) hf found refers

/-- The rounds that are left are enough for the objects that have not been looked at. -/
theorem yields_rounds (hc : r.CanResume v ρ e n) (hd : n ≤ d) (k : ℕ) :
    ∀ count r' S, r.Making v ρ e session r' S → S.unfinished = [] → S.Knows r ρ v →
      S.Explored r ρ count → count ≤ S.made.keys.length → e.entries.size < count + k →
        ∃ r'' S', Yields (iterate (fun cursor => do
            match (← sessionAt session).made.keys[cursor]? with
            | none => return .inr ()
            | some reference =>
              match e.entries.find? reference with
              | some entry =>
                for t in ← dependencies entry do
                  let _ ← @resolve (engine (d + 3)) session t
              | none => pure ()
              return .inl (cursor + 1)) k count) r' () r''
          ∧ r.Making v ρ e session r'' S' ∧ S.Le S' ∧ S'.unfinished = []
          ∧ ∀ w, r.Holds v w → S'.Knows r ρ w := by
  induction k with
  | zero =>
    intro count r' S h _ _ _ hcount hk
    have := h.length_keys_le hc
    omega
  | succ k ih =>
    intro count r' S h hun hroot hexplored hcount hk
    cases hr : S.made.keys[count]? with
    | none =>
      have hlength : count = S.made.keys.length := by
        have := List.getElem?_eq_none_iff.mp hr
        omega
      subst hlength
      refine ⟨r', S, ?_, h, Session.Le.refl S, hun, fun w hw =>
        Session.knows_of_explored hexplored hroot hw⟩
      refine yields_iterate_stop ?_
      refine (yields_sessionAt h.session).bind ?_
      rw [hr]
      exact Yields.pure _ r'
    | some reference =>
      obtain ⟨entry, l, r₁, S₁, hentry, hdeps, hloop, h₁, hle₁, hun₁, hexplored₁⟩ :=
        yields_look hc hd h hun hr hexplored
      have hlength : count + 1 ≤ S₁.made.keys.length := by
        have h₀ := (List.getElem?_eq_some_iff.mp hr).1
        have h₁ := hle₁.keys.length_le
        omega
      obtain ⟨r₂, S₂, hy, h₂, hle₂, hun₂, hk₂⟩ :=
        ih (count + 1) r₁ S₁ h₁ hun₁ (hroot.mono hle₁) hexplored₁ hlength (by omega)
      refine ⟨r₂, S₂, ?_, h₂, hle₁.trans hle₂, hun₂, hk₂⟩
      refine yields_iterate_step ?_ hy
      refine (yields_sessionAt h.session).bind ?_
      rw [hr]
      simp only [hentry]
      exact hdeps.bind (hloop.bind (Yields.pure _ _))

/-- **An object is made for every object in the graph.** -/
theorem yields_discover (hc : r.CanResume v ρ e n) (hd : n ≤ d)
    (h : r.Making v ρ e session r' S) (hun : S.unfinished = []) (hroot : S.Knows r ρ v)
    (hrounds : e.entries.size < d + 3) :
    ∃ r'' S', Yields (@discover (engine (d + 3)) session e.entries) r' () r''
      ∧ r.Making v ρ e session r'' S' ∧ S.Le S' ∧ S'.unfinished = []
      ∧ ∀ w, r.Holds v w → S'.Knows r ρ w :=
  yields_rounds hc hd (d + 3) 0 r' S h hun hroot
    (fun _ _ _ _ _ hi => absurd hi (Nat.not_lt_zero _)) (Nat.zero_le _) (by omega)

end Stasis
