import Mathlib
import Stasis.Proofs.Linked

/-!
# Sessions

A session makes an object for the root of its envelope, then one for everything that can be reached
from it, and links them in the order in which they were made.

* `Realm.Stage`: objects that wait are bare, and the others are copies.
* `linkAll_cases`: in the end every object is a copy, unless a chain is too long.
* `runSession_cases`: the three sweeps.
-/

namespace Stasis

/-- The object has one of the references. -/
def References.Awaits (ρ : References) (waiting : List String) (id : ObjectId) : Prop :=
  ∃ reference ∈ waiting, ρ.objects.find? id = some reference

/-- An object that waits is bare, and one that does not is a copy. -/
def Realm.Stage (r : Realm) (ρ : References) (S : Session) (waiting : List String) (id : ObjectId)
    (o o' : Object) : Prop :=
  (ρ.Awaits waiting id → o.IsBare r.known (S.copyOf ρ) o')
    ∧ (¬ ρ.Awaits waiting id → o.IsCopy (S.copyOf ρ) o')

variable {S : Session} {r r' : Realm} {v : Value} {ρ : References} {e : Envelope}
  {session : SessionId} {n d : ℕ}

theorem Realm.Stage.hasPrototypeOf {waiting : List String} (id : ObjectId) (o o' : Object)
    (h : r.Stage ρ S waiting id o o') : o.HasPrototypeOf r.known (S.copyOf ρ) o' := by
  by_cases hw : ρ.Awaits waiting id
  · exact Or.inr (h.1 hw).prototype
  · exact Or.inl (h.2 hw).prototype

/-- The objects of some references are linked, one after another. -/
def linkAll [Machine] (session : SessionId) (e : Envelope) (references : List String) : Run Unit :=
  forIn references PUnit.unit fun reference _ => do
    match e.entries.find? reference with
    | some entry =>
      linkEntry session reference entry
      pure (ForInStep.yield PUnit.unit)
    | none => pure (ForInStep.yield PUnit.unit)

/-- **In the end every object is a copy**, unless there is one whose chain is too long when it is
linked. -/
theorem linkAll_cases (hc : r.CanResume v ρ e n) (hall : S.IsComplete r v ρ) (hd : n ≤ d)
    (harrays : r.ArraysEnd v) {a b : ℕ} (hchains : r.ChainsWithin v a b) {waiting : List String}
    (hnodup : waiting.Nodup) (hwaiting : ∀ reference ∈ waiting, ∃ id id', r.Inner v id
      ∧ ρ.objects.find? id = some reference ∧ S.made.find? reference = some (.object id')) :
    ∀ {r'}, r.Linking ρ session S (r.Stage ρ S waiting) r' →
      (∃ r'', Yields (@linkAll (engine (d + 1)) session e waiting) r' () r''
        ∧ r.Linking ρ session S (r.Stage ρ S []) r'') ∨
      (maxChainDepth + 1 < a + b ∧
        IsRefused (@linkAll (engine (d + 1)) session e waiting) r' session S) := by
  induction waiting with
  | nil => exact fun {r'} h => .inl ⟨r', yields_forIn_nil _ r', h⟩
  | cons reference waiting ih =>
    intro r' h
    obtain ⟨⟨id, id', hid, hf, hm⟩, hrest⟩ := List.forall_mem_cons.mp hwaiting
    obtain ⟨hnew, hnodup⟩ := List.nodup_cons.mp hnodup
    obtain ⟨o, ho⟩ := hc.data.found id hid.1
    obtain ⟨reference', hf', hentry⟩ := hc.written.entry id o hid ho
    obtain rfl : reference = reference' := Option.some.inj (hf.symm.trans hf')
    obtain ⟨cur, hcur, hat⟩ := h.at ⟨reference, hf, hm⟩ ho
    rcases linkEntry_cases hc hall hd harrays hchains hid hf hm ho hat
      (fun id₁ o₁ o₁' hs => hs.hasPrototypeOf id₁) (hcur.1 ⟨reference, List.mem_cons_self, hf⟩) with
      ⟨r₁, o', hy, h₁, hcopy⟩ | ⟨hlong, hrefused⟩
    · have h₂ : r.Linking ρ session S (r.Stage ρ S waiting) r₁ := by
        refine h₁.finish (fun o₁ ho₁ => ?_) fun id₁ o₁ o₁' hne hs => ⟨fun hw => ?_, fun hw => ?_⟩
        · obtain rfl : o = o₁ := Except.ok.inj (ho.symm.trans ho₁)
          refine ⟨fun ⟨reference', hr, hf'⟩ => ?_, fun _ => hcopy⟩
          rw [hf] at hf'
          cases hf'
          exact absurd hr hnew
        · obtain ⟨reference', hr, hf'⟩ := hw
          exact hs.1 ⟨reference', List.mem_cons_of_mem _ hr, hf'⟩
        · refine hs.2 fun ⟨reference', hr, hf₁⟩ => ?_
          rcases List.mem_cons.mp hr with rfl | hr
          · exact hne (hc.written.sound.objects id₁ id _ hf₁ hf)
          · exact hw ⟨reference', hr, hf₁⟩
      refine (ih hnodup hrest h₂).imp (fun ⟨r'', hy', h''⟩ => ⟨r'', yields_forIn_cons ?_ hy', h''⟩)
        fun ⟨hlong, hrefused⟩ => ⟨hlong, Yields.forIn_cons_refused ?_ hrefused⟩
      all_goals
        simp only [hentry]
        exact hy.bind (Yields.pure _ _)
    · refine .inr ⟨hlong, .forIn_cons ?_ _⟩
      simp only [hentry]
      exact hrefused.bind _

/-- What has been made is bare. -/
theorem Realm.Making.linking (h : r.Making v ρ e session r' S) :
    r.Linking ρ session S (fun _ o o' => o.IsBare r.known (S.copyOf ρ) o') r' := by
  refine ⟨h.grows, h.session, fun id id' o hm ho => ?_⟩
  obtain ⟨-, o₁, o', ho₁, ho', hbare, -⟩ := h.bare id id' hm
  obtain rfl : o = o₁ := Except.ok.inj (ho.symm.trans ho₁)
  exact ⟨o', ho', hbare⟩

/-- **A session makes a copy of every object** in the graph, and ends with the copy of the root; or it is
refused for the depth of a chain. -/
theorem runSession_cases (hc : r.CanResume v ρ e n) (hd : n ≤ d) (hsize : e.entries.size < d + 3)
    (harrays : r.ArraysEnd v) {a b : ℕ} (hchains : r.ChainsWithin v a b)
    (h : r.Making v ρ e session r' S) (hun : S.unfinished = []) :
    (∃ r'' S', Yields (@runSession (engine (d + 3)) session e) r' (v.map (S'.copyOf ρ)) r''
      ∧ S'.IsComplete r v ρ
      ∧ r.Linking ρ session S' (fun _ o o' => o.IsCopy (S'.copyOf ρ) o') r'') ∨
    (maxChainDepth + 1 < a + b ∧
      ∃ S', IsRefused (@runSession (engine (d + 3)) session e) r' session S') := by
  have hρ := hc.written.sound
  obtain ⟨r₁, S₁, hroot, h₁, -, hun₁, hk₁⟩ := yields_resolve hc hd h
    (hc.written.isReadable hc.data hc.numbers .self) hun
  obtain ⟨r₂, S₂, hdiscover, h₂, hle, -, hk₂⟩ := yields_discover hc hd h₁ (hun₁.trans hun) hk₁ hsize
  have hall := h₂.isComplete hρ hk₂
  have hvalue : v.map (S₁.copyOf ρ) = v.map (S₂.copyOf ρ) := by
    cases v with
    | object id => rw [Value.map, Value.map, h₁.copyOf_of_le hρ h₂ hle hk₁]
    | _ => rfl
  have hlinking : r.Linking ρ session S₂ (r.Stage ρ S₂ S₂.made.keys) r₂ := by
    refine ⟨h₂.grows, h₂.session, fun id id' o hm ho => ?_⟩
    obtain ⟨o', ho', hbare⟩ := h₂.linking.objects id id' o hm ho
    obtain ⟨reference, hf, hmade⟩ := hm
    have hkeys : reference ∈ S₂.made.keys := Table.mem_keys_iff.mpr ⟨_, hmade⟩
    exact ⟨o', ho', fun _ => hbare, fun hw => absurd ⟨reference, hkeys, hf⟩ hw⟩
  rw [← hc.written.root] at hroot
  rcases linkAll_cases (d := d + 2) hc hall (by omega) harrays hchains S₂.made.nodup
    (fun reference hr => by
      obtain ⟨w, hw⟩ := Table.mem_keys_iff.mp hr
      obtain ⟨id, id', hid, hf, rfl⟩ := h₂.inner reference w hw
      exact ⟨id, id', hid, hf, hw⟩) hlinking with ⟨r'', hloop, h''⟩ | ⟨hlong, hrefused⟩
  · refine .inl ⟨r'', S₂, ?_, hall, h''.grows, h''.session, fun id id' o hm ho => ?_⟩
    · rw [← hvalue]
      exact hroot.bind (hdiscover.bind ((yields_sessionAt h₂.session).bind
        (hloop.bind (Yields.pure _ _))))
    · obtain ⟨o', ho', hs⟩ := h''.objects id id' o hm ho
      refine ⟨o', ho', hs.2 ?_⟩
      rintro ⟨_, hr, _⟩
      exact absurd hr List.not_mem_nil
  · exact .inr ⟨hlong, S₂, hroot.bind_refused (hdiscover.bind_refused
      ((yields_sessionAt h₂.session).bind_refused (hrefused.bind _)))⟩

end Stasis
