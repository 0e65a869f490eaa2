import Mathlib
import Stasis.Proofs.Discover

/-!
# Linking what objects hold

When every object has been made, the objects are linked one after another. While one of them is
linked, nothing happens to the others.

* `Realm.Linking`, `Realm.LinkingAt`: what is known of the objects, and of the one that is linked.
* `yields_resolve_made`: every value of the graph is read as its copy.
* `yields_linkPayload`: an object is given what its kind holds.
-/

namespace Stasis

/-- An object has been made for every object in the graph of `v`, and for no other one. -/
structure Session.IsComplete (S : Session) (r : Realm) (v : Value) (ρ : References) : Prop where
  knows : ∀ w, r.Holds v w → S.Knows r ρ w
  inner : ∀ id id', S.HasMade ρ id id' → r.Inner v id
  fresh : ∀ id id', S.HasMade ρ id id' → r.store.size ≤ id'
  injective : ∀ id₁ id₂ id', S.HasMade ρ id₁ id' → S.HasMade ρ id₂ id' → id₁ = id₂
  host : ∀ id, r.hostPaths.contains id = true → S.copyOf ρ id = id

/-- Every object that was made is to its original as `P` says. -/
structure Realm.Linking (r : Realm) (ρ : References) (session : SessionId) (S : Session)
    (P : ObjectId → Object → Object → Prop) (r' : Realm) : Prop where
  grows : (r.giving ρ).Grows r'
  session : r'.sessions[session]? = some S
  objects : ∀ id id' o, S.HasMade ρ id id' → r.store.get id = .ok o →
    ∃ o', r'.store.get id' = .ok o' ∧ P id o o'

/-- The object for `id` is `cur`; every other one is to its original as `P` says. -/
def Realm.LinkingAt (r : Realm) (ρ : References) (session : SessionId) (S : Session)
    (P : ObjectId → Object → Object → Prop) (id : ObjectId) (cur : Object) : Realm → Prop :=
  r.Linking ρ session S fun id₁ o o' => if id₁ = id then o' = cur else P id₁ o o'

variable {S : Session} {r r' r'' : Realm} {v w : Value} {ρ : References} {e : Envelope}
  {session : SessionId} {o cur cur' : Object} {id id' : ObjectId} {n d : ℕ}
  {P P' : ObjectId → Object → Object → Prop}

theorem Realm.Making.isComplete (h : r.Making v ρ e session r' S) (hρ : ρ.Sound)
    (hk : ∀ w, r.Holds v w → S.Knows r ρ w) : S.IsComplete r v ρ where
  knows := hk
  inner := fun _ _ hm => h.inner_of_hasMade hρ hm
  fresh := fun id id' hm => (h.bare id id' hm).1
  injective := h.injective
  host := fun _ hid => h.copyOf_host hρ hid

theorem Session.IsComplete.hasMade (h : S.IsComplete r v ρ) (hid : r.Inner v id) :
    S.HasMade ρ id (S.copyOf ρ id) := by
  obtain ⟨id', hm⟩ := h.knows _ hid.1 id rfl hid.2
  rwa [hm.copyOf]

namespace Realm

theorem Linking.grow (h : r.Linking ρ session S P r') (hr : r'.Grows r'')
    (hs : r''.sessions = r'.sessions) : r.Linking ρ session S P r'' where
  grows := h.grows.trans hr
  session := hs ▸ h.session
  objects := by
    intro id id' o hm ho
    obtain ⟨o', ho', hp⟩ := h.objects id id' o hm ho
    exact ⟨o', hr.objects id' o' ho', hp⟩

theorem LinkingAt.get (h : r.LinkingAt ρ session S P id cur r') (hm : S.HasMade ρ id id')
    (ho : r.store.get id = .ok o) : r'.store.get id' = .ok cur := by
  obtain ⟨o', ho', he⟩ := h.objects id id' o hm ho
  rw [if_pos rfl] at he
  exact he ▸ ho'

/-- The object that is linked changes. -/
theorem LinkingAt.set (h : r.LinkingAt ρ session S P id cur r') (hall : S.IsComplete r v ρ)
    (hm : S.HasMade ρ id id') (ho : r.store.get id = .ok o) (cur' : Object) :
    r.LinkingAt ρ session S P id cur' { r' with store := r'.store.set id' cur' } where
  grows := h.grows.setFresh (hall.fresh id id' hm) cur'
  session := h.session
  objects := by
    intro id₁ id₁' o₁ hm₁ ho₁
    by_cases he : id₁ = id
    · subst he
      obtain rfl : id₁' = id' := by rw [← hm₁.copyOf, hm.copyOf]
      exact ⟨cur', Store.get_set_self (Store.lt_size_of_get (h.get hm ho)), by rw [if_pos rfl]⟩
    · obtain ⟨o', ho', hp⟩ := h.objects id₁ id₁' o₁ hm₁ ho₁
      refine ⟨o', ?_, by rwa [if_neg he] at hp ⊢⟩
      rw [Store.get_set_of_ne, ho']
      rintro rfl
      exact he (hall.injective id₁ id _ hm₁ hm)

/-- An object is begun. -/
theorem Linking.at (h : r.Linking ρ session S P r') (hm : S.HasMade ρ id id')
    (ho : r.store.get id = .ok o) :
    ∃ cur, P id o cur ∧ r.LinkingAt ρ session S P id cur r' := by
  obtain ⟨cur, hcur, hp⟩ := h.objects id id' o hm ho
  refine ⟨cur, hp, h.grows, h.session, fun id₁ id₁' o₁ hm₁ ho₁ => ?_⟩
  obtain ⟨o', ho', hp'⟩ := h.objects id₁ id₁' o₁ hm₁ ho₁
  refine ⟨o', ho', ?_⟩
  split
  · next he =>
    subst he
    obtain rfl : id₁' = id' := by rw [← hm₁.copyOf, hm.copyOf]
    rw [hcur] at ho'
    exact (Except.ok.inj ho').symm
  · exact hp'

/-- An object is finished. -/
theorem LinkingAt.finish (h : r.LinkingAt ρ session S P id cur r') (hcur : ∀ o, r.store.get id = .ok o →
    P' id o cur) (hP : ∀ id₁ o o', id₁ ≠ id → P id₁ o o' → P' id₁ o o') :
    r.Linking ρ session S P' r' where
  grows := h.grows
  session := h.session
  objects := by
    intro id₁ id₁' o₁ hm₁ ho₁
    obtain ⟨o', ho', hp⟩ := h.objects id₁ id₁' o₁ hm₁ ho₁
    refine ⟨o', ho', ?_⟩
    by_cases he : id₁ = id
    · subst he
      rw [if_pos rfl] at hp
      exact hp ▸ hcur o₁ ho₁
    · rw [if_neg he] at hp
      exact hP id₁ o₁ o' he hp

end Realm

/-- Every value of the graph is read as its copy. -/
theorem yields_resolve_made (hc : r.CanResume v ρ e n) (hall : S.IsComplete r v ρ) (hd : n ≤ d)
    (h : r.Linking ρ session S P r') (hw : r.IsReadable v ρ w) :
    ∃ r'', Yields (@resolve (engine (d + 1)) session (r.written ρ w)) r' (w.map (S.copyOf ρ)) r''
      ∧ r'.Grows r'' ∧ r''.sessions = r'.sessions := by
  have hρ := hc.written.sound
  cases ho : w.isObject with
  | false =>
    let _ : Machine := engine d
    refine ⟨r', ?_, .refl r', rfl⟩
    rw [map_eq_of_isObject ho]
    exact yields_resolve_primitive hρ h.grows hw ho
  | true =>
    obtain ⟨id, rfl⟩ : ∃ id, w = .object id := by
      cases w <;> first | exact ⟨_, rfl⟩ | cases ho
    cases hhost : r.hostPaths.contains id with
    | true =>
      rw [Value.map, hall.host id hhost]
      exact yields_resolve_host session hc.paths hd hc.written.le h.grows hhost
    | false =>
      obtain ⟨id', reference, hf, hm⟩ := hall.knows _ hw id rfl hhost
      have hwritten : r.written ρ (.object id) = .entry reference := by
        have hpath : r.hostPaths.pathOf? id = none := Table.contains_eq_false_iff.mp hhost
        simp only [Realm.written, hpath, hf, Option.getD_some]
      have hmade : S.HasMade ρ id id' := ⟨reference, hf, hm⟩
      refine ⟨r', ?_, .refl r', rfl⟩
      rw [hwritten, Value.map, hmade.copyOf]
      refine Yields.bind (yields_sessionAt h.session) ?_
      simp only [hm]
      exact Yields.pure _ r'

/-! ## Payloads -/

/-- Different objects have different copies. -/
theorem copyOf_injective (hc : r.CanResume v ρ e n) (hall : S.IsComplete r v ρ)
    {id₁ id₂ : ObjectId} (h₁ : r.Holds v (.object id₁)) (h₂ : r.Holds v (.object id₂))
    (he : S.copyOf ρ id₁ = S.copyOf ρ id₂) : id₁ = id₂ := by
  -- copies are new, and the host was there before
  have hmixed : ∀ {a b}, r.Inner v a → r.hostPaths.contains b = true →
      S.copyOf ρ a ≠ S.copyOf ρ b := by
    intro a b ha hb hab
    have hfresh := hall.fresh a _ (hall.hasMade ha)
    obtain ⟨o, ho⟩ := hc.hosts b hb
    have hold := Store.lt_size_of_get ho
    rw [hab, hall.host b hb] at hfresh
    exact absurd hold (not_lt_of_ge hfresh)
  cases hh₁ : r.hostPaths.contains id₁ with
  | true =>
    cases hh₂ : r.hostPaths.contains id₂ with
    | true => rwa [hall.host id₁ hh₁, hall.host id₂ hh₂] at he
    | false => exact absurd he.symm (hmixed ⟨h₂, hh₂⟩ hh₁)
  | false =>
    cases hh₂ : r.hostPaths.contains id₂ with
    | true => exact absurd he (hmixed ⟨h₁, hh₁⟩ hh₂)
    | false =>
      have hm₂ := hall.hasMade ⟨h₂, hh₂⟩
      rw [← he] at hm₂
      exact hall.injective id₁ id₂ _ (hall.hasMade ⟨h₁, hh₁⟩) hm₂

theorem key_map_injective (hc : r.CanResume v ρ e n) (hall : S.IsComplete r v ρ)
    {k₁ k₂ : CollectionKey} (h₁ : r.Holds v k₁.toValue) (h₂ : r.Holds v k₂.toValue)
    (he : k₁.map (S.copyOf ρ) = k₂.map (S.copyOf ρ)) : k₁ = k₂ := by
  cases k₁ <;> cases k₂ <;>
    simp only [CollectionKey.map, CollectionKey.object.injEq, reduceCtorEq] at he
  case object.object id₁ id₂ => rw [copyOf_injective hc hall h₁ h₂ he]
  all_goals first | rfl | exact he

theorem nodup_map_keys (hc : r.CanResume v ρ e n) (hall : S.IsComplete r v ρ)
    {l : List CollectionKey} (hl : ∀ k ∈ l, r.Holds v k.toValue) (h : l.Nodup) :
    (l.map (CollectionKey.map (S.copyOf ρ))).Nodup :=
  List.Nodup.map_on (fun k₁ h₁ k₂ h₂ => key_map_injective hc hall (hl k₁ h₁) (hl k₂ h₂)) h

/-- The key of the copy of a key is the copy of the key. -/
theorem ofValue_map {k : CollectionKey} (hk : CollectionKey.ofValue k.toValue = k)
    (f : ObjectId → ObjectId) : CollectionKey.ofValue (k.toValue.map f) = k.map f := by
  cases k <;> first | rfl | exact hk

/-- The entries of a map are added one after another. -/
theorem yields_linkMap (hc : r.CanResume v ρ e n) (hall : S.IsComplete r v ρ) (hd : n ≤ d)
    (hm : S.HasMade ρ id id') (ho : r.store.get id = .ok o)
    {l : List (CollectionKey × Value)}
    (hl : ∀ q ∈ l, r.Holds v q.1.toValue ∧ r.Holds v q.2
      ∧ CollectionKey.ofValue q.1.toValue = q.1) :
    ∀ {r' cur} {t : Table CollectionKey Value}, r.LinkingAt ρ session S P id cur r' →
      cur.kind = .map t →
      (t.keys ++ l.map fun q => q.1.map (S.copyOf ρ)).Nodup →
      ∃ r'' t', Yields (forIn (l.map fun q => (r.written ρ q.1.toValue, r.written ρ q.2))
          PUnit.unit fun x _ => do
            let key ← @resolve (engine (d + 1)) session x.1
            let value ← @resolve (engine (d + 1)) session x.2
            match ← kindOf id' with
            | .map present =>
              setKind id' (.map (present.insert (CollectionKey.ofValue key) value))
              pure (ForInStep.yield PUnit.unit)
            | _ => pure (ForInStep.yield PUnit.unit)) r' () r''
        ∧ r.LinkingAt ρ session S P id { cur with kind := .map t' } r''
        ∧ t'.entries = t.entries ++ l.map fun q => (q.1.map (S.copyOf ρ), q.2.map (S.copyOf ρ)) := by
  induction l with
  | nil =>
    intro r' cur t h hk _
    refine ⟨r', t, yields_forIn_nil _ r', ?_, (List.append_nil _).symm⟩
    rw [← hk]
    exact h
  | cons q l ih =>
    intro r' cur t h hk hnodup
    obtain ⟨⟨hkey, hvalue, hown⟩, hrest⟩ := List.forall_mem_cons.mp hl
    obtain ⟨r₁, hy₁, hg₁, hs₁⟩ := yields_resolve_made hc hall hd h
      (hc.written.isReadable hc.data hc.numbers hkey)
    have h₁ : r.LinkingAt ρ session S P id cur r₁ := h.grow hg₁ hs₁
    obtain ⟨r₂, hy₂, hg₂, hs₂⟩ := yields_resolve_made hc hall hd h₁
      (hc.written.isReadable hc.data hc.numbers hvalue)
    have h₂ : r.LinkingAt ρ session S P id cur r₂ := Realm.Linking.grow h₁ hg₂ hs₂
    have hnew : q.1.map (S.copyOf ρ) ∉ t.keys := by
      simp only [List.map_cons, List.nodup_append, List.mem_cons] at hnodup
      intro hmem
      exact hnodup.2.2 _ hmem _ (Or.inl rfl) rfl
    let t₁ := t.insert (q.1.map (S.copyOf ρ)) (q.2.map (S.copyOf ρ))
    let cur₁ : Object := { cur with kind := .map t₁ }
    have h₃ := h₂.set hall hm ho cur₁
    obtain ⟨r'', t', hy, h', hentries⟩ := ih hrest h₃ rfl (by
      rw [Table.keys_insert_of_notMem hnew]
      simpa using hnodup)
    refine ⟨r'', t', yields_forIn_cons (hy₁.bind (hy₂.bind ?_)) hy, h', ?_⟩
    · refine (yields_kindOf (h₂.get hm ho)).bind ?_
      rw [hk, ofValue_map hown]
      exact (yields_setKind (h₂.get hm ho)).bind (Yields.pure _ _)
    · rw [hentries, Table.entries_insert_of_notMem hnew, List.append_assoc]
      rfl

/-- The elements of a set are added one after another. -/
theorem yields_linkSet (hc : r.CanResume v ρ e n) (hall : S.IsComplete r v ρ) (hd : n ≤ d)
    (hm : S.HasMade ρ id id') (ho : r.store.get id = .ok o) {l : List CollectionKey}
    (hl : ∀ k ∈ l, r.Holds v k.toValue ∧ CollectionKey.ofValue k.toValue = k) :
    ∀ {r' cur} {t : Table CollectionKey Unit}, r.LinkingAt ρ session S P id cur r' →
      cur.kind = .set t → (t.keys ++ l.map fun k => k.map (S.copyOf ρ)).Nodup →
      ∃ r'' t', Yields (forIn (l.map fun k => r.written ρ k.toValue) PUnit.unit fun x _ => do
            let key ← @resolve (engine (d + 1)) session x
            match ← kindOf id' with
            | .set present =>
              setKind id' (.set (present.insert (CollectionKey.ofValue key) ()))
              pure (ForInStep.yield PUnit.unit)
            | _ => pure (ForInStep.yield PUnit.unit)) r' () r''
        ∧ r.LinkingAt ρ session S P id { cur with kind := .set t' } r''
        ∧ t'.keys = t.keys ++ l.map (CollectionKey.map (S.copyOf ρ)) := by
  induction l with
  | nil =>
    intro r' cur t h hk _
    refine ⟨r', t, yields_forIn_nil _ r', ?_, (List.append_nil _).symm⟩
    rw [← hk]
    exact h
  | cons k l ih =>
    intro r' cur t h hk hnodup
    obtain ⟨⟨hkey, hown⟩, hrest⟩ := List.forall_mem_cons.mp hl
    obtain ⟨r₁, hy₁, hg₁, hs₁⟩ := yields_resolve_made hc hall hd h
      (hc.written.isReadable hc.data hc.numbers hkey)
    have h₁ : r.LinkingAt ρ session S P id cur r₁ := h.grow hg₁ hs₁
    have hnew : k.map (S.copyOf ρ) ∉ t.keys := by
      simp only [List.map_cons, List.nodup_append, List.mem_cons] at hnodup
      intro hmem
      exact hnodup.2.2 _ hmem _ (Or.inl rfl) rfl
    let t₁ := t.insert (k.map (S.copyOf ρ)) ()
    let cur₁ : Object := { cur with kind := .set t₁ }
    have h₂ := h₁.set hall hm ho cur₁
    obtain ⟨r'', t', hy, h', hkeys⟩ := ih hrest h₂ rfl (by
      rw [Table.keys_insert_of_notMem hnew]
      simpa using hnodup)
    refine ⟨r'', t', yields_forIn_cons (hy₁.bind ?_) hy, h', ?_⟩
    · refine (yields_kindOf (h₁.get hm ho)).bind ?_
      rw [hk, ofValue_map hown]
      exact (yields_setKind (h₁.get hm ho)).bind (Yields.pure _ _)
    · rw [hkeys, Table.keys_insert_of_notMem hnew, List.append_assoc]
      rfl

/-- A settled promise is settled again. -/
theorem yields_settle [Machine] (hall : S.IsComplete r v ρ) (hm : S.HasMade ρ id id')
    (ho : r.store.get id = .ok o) (h : r.LinkingAt ρ session S P id cur r')
    (hcur : cur.kind = .promise .pending) (state : PromiseState) :
    ∃ r'', Yields (linkPayload.settle id' state) r' () r''
      ∧ r.LinkingAt ρ session S P id { cur with kind := .promise state } r'' := by
  refine ⟨_, (yields_kindOf (h.get hm ho)).bind ?_, h.set hall hm ho _⟩
  rw [hcur]
  exact yields_setKind (h.get hm ho)

/-- **A bare object is given what its kind holds.** -/
theorem yields_linkPayload (hc : r.CanResume v ρ e n) (hall : S.IsComplete r v ρ) (hd : n ≤ d)
    (hid : r.Inner v id) (hm : S.HasMade ρ id id') (ho : r.store.get id = .ok o)
    (h : r.LinkingAt ρ session S P id cur r') {type : ObjectType} (ht : o.kind.type? = some type)
    (hbare : o.kind.IsBare (S.copyOf ρ) cur.kind) :
    ∃ r'' k, Yields (@linkPayload (engine (d + 1)) session id' type
        (r.writtenPayload ρ o.kind).toJson) r' () r''
      ∧ r.LinkingAt ρ session S P id { cur with kind := k } r''
      ∧ o.kind.IsCopy (S.copyOf ρ) k := by
  let _ : Machine := engine (d + 1)
  have hheld : ∀ w ∈ o.kind.values, r.Holds v w :=
    fun w hw => .step hid.1 hid.2 ho (Object.mem_values_iff.mpr (Or.inr (Or.inr hw)))
  have hdata := hc.data.data id o hid ho
  have hflat : ∀ t ∈ (r.writtenPayload ρ o.kind).values, t.IsFlat := by
    intro t ht
    obtain ⟨w, -, rfl⟩ := (mem_values_writtenPayload_iff hdata.isInert).mp ht
    exact isFlat_written r ρ w
  have hsound := (hc.sound.objects id o ho).kind
  cases hk : o.kind with
  | map entries =>
    rw [hk] at ht hbare hflat hheld hsound
    cases ht
    have hread := Payload.ofJson?_toJson rfl hflat
    have hkeys : ∀ q ∈ entries.entries, r.Holds v q.1.toValue ∧ r.Holds v q.2 := fun q hq =>
      ⟨hheld _ (List.mem_flatMap_of_mem hq List.mem_cons_self),
        hheld _ (List.mem_flatMap_of_mem hq (List.mem_cons_of_mem _ List.mem_cons_self))⟩
    obtain ⟨r'', t, hy, hlinking, hentries⟩ := yields_linkMap hc hall hd hm ho
      (l := entries.entries)
      (fun q hq => ⟨(hkeys q hq).1, (hkeys q hq).2, hsound q.1 (List.mem_map_of_mem hq)⟩) h hbare (by
        have hnodup := nodup_map_keys hc hall (l := entries.keys) (fun k hk => by
          obtain ⟨q, hq, rfl⟩ := List.mem_map.mp hk
          exact (hkeys q hq).1) entries.nodup
        rwa [Table.keys, List.map_map] at hnodup)
    exact ⟨r'', .map t, (yields_readPayload hread r').bind (hy.bind (Yields.pure _ _)), hlinking,
      hentries⟩
  | set elements =>
    rw [hk] at ht hbare hflat hheld hsound
    cases ht
    have hread := Payload.ofJson?_toJson rfl hflat
    have hkeys : ∀ k ∈ elements.keys, r.Holds v k.toValue :=
      fun k hk => hheld _ (List.mem_map_of_mem hk)
    obtain ⟨r'', t, hy, hlinking, hentries⟩ := yields_linkSet hc hall hd hm ho
      (l := elements.keys) (fun k hk => ⟨hkeys k hk, hsound k hk⟩) h hbare
      (nodup_map_keys hc hall hkeys elements.nodup)
    exact ⟨r'', .set t, (yields_readPayload hread r').bind (hy.bind (Yields.pure _ _)), hlinking,
      hentries⟩
  | promise state =>
    rw [hk] at ht hbare hflat hheld hdata
    cases ht
    cases state with
    | pending => exact hdata.elim
    | fulfilled w =>
      have hread := Payload.ofJson?_toJson rfl hflat
      obtain ⟨r₁, hy, hg, hs⟩ := yields_resolve_made hc hall hd h
        (hc.written.isReadable hc.data hc.numbers (hheld w List.mem_cons_self))
      obtain ⟨r'', hsettle, hlinking⟩ := yields_settle hall hm ho (h.grow hg hs) hbare
        (.fulfilled (w.map (S.copyOf ρ)))
      exact ⟨r'', _, (yields_readPayload hread r').bind (hy.bind hsettle), hlinking, rfl⟩
    | rejected w =>
      have hread := Payload.ofJson?_toJson rfl hflat
      obtain ⟨r₁, hy, hg, hs⟩ := yields_resolve_made hc hall hd h
        (hc.written.isReadable hc.data hc.numbers (hheld w List.mem_cons_self))
      obtain ⟨r'', hsettle, hlinking⟩ := yields_settle hall hm ho (h.grow hg hs) hbare
        (.rejected (w.map (S.copyOf ρ)))
      exact ⟨r'', _, (yields_readPayload hread r').bind (hy.bind hsettle), hlinking, rfl⟩
  | function _ | error => rw [hk] at hdata; exact hdata.elim
  | ordinary => rw [hk] at ht; cases ht
  | _ =>
    rw [hk] at ht hbare
    cases ht
    exact ⟨r', cur.kind, Yields.pure _ r', h, hbare⟩

end Stasis
