import Mathlib
import Stasis.Proofs.Behaves.Resume
import Stasis.Proofs.Behaves.Engine
import Stasis.Proofs.Copy
import Stasis.Proofs.Quiet

/-!
# Verifying does not disturb

To find out whether a value can be suspended, it is suspended, resumed and compared. None of that
shows in the graph of the value, so it is suspended with the same envelope the next time.

* `IsWrittenAs.isQuiet`: no function is made for the envelope of an inert graph.
* `undisturbed_of_ensureSerializable`: what a round trip leaves as it was.
* `yields_serialize_again`: the envelope of an inert graph is written again.
* `serialize_undisturbed`: an inert graph is suspended, verified and suspended again.
-/

namespace Stasis

variable {r r' r'' : Realm} {v w : Value} {ρ : References} {e : Envelope} {d : ℕ}

/-! ## The envelope of an inert graph -/

theorem isQuiet_taggedNumber (x : Float) : (taggedNumber x).IsQuiet r.hostPaths := by
  intro path h
  unfold taggedNumber at h
  repeat' split at h
  all_goals cases h

/-- A path that is written is one that was recorded. -/
theorem isQuiet_written (r : Realm) (ρ : References) (w : Value) :
    (r.written ρ w).IsQuiet r.hostPaths := by
  cases w with
  | number x => exact isQuiet_taggedNumber x
  | symbol id =>
    intro path h
    simp only [Realm.written, Realm.writtenSymbol] at h
    split at h <;> cases h
  | object id =>
    intro path h
    simp only [Realm.written] at h
    split at h
    · next hpath =>
      cases h
      exact ⟨id, hpath⟩
    · cases h
  | _ =>
    intro path h
    cases h

theorem ObjectType.name_injective : Function.Injective ObjectType.name := by
  intro t t' h
  cases t <;> cases t' <;> first | rfl | exact absurd h (by decide)

theorem Payload.eq_date_of_ofJson? {j : Json} {p : Payload} (h : ofJson? .date j = some p) :
    ∃ time, p = .date time := by
  obtain ⟨fields, -, h⟩ := Option.bind_eq_some_iff.mp h
  split at h
  · cases h
  · obtain ⟨time, -, h⟩ := Option.bind_eq_some_iff.mp h
    exact ⟨time, (Option.some.inj h).symm⟩

/-- No function is made for what is read of the payload of an inert object. -/
theorem isQuiet_payload {k : Kind} (hk : k.IsInert) {type : ObjectType} (ht : k.type? = some type)
    {p : Payload} (hp : Payload.ofJson? type (r.writtenPayload ρ k).toJson = some p) :
    p.IsQuiet r.hostPaths := by
  have hflat : ∀ t ∈ (r.writtenPayload ρ k).values, t.IsFlat ∧ t.IsQuiet r.hostPaths := by
    intro t ht
    obtain ⟨w, -, rfl⟩ := (mem_values_writtenPayload_iff hk).mp ht
    exact ⟨isFlat_written r ρ w, isQuiet_written r ρ w⟩
  -- what is read is what was written, but for times
  have hsame : (r.writtenPayload ρ k).dataType? = some type →
      (r.writtenPayload ρ k).isOfFunction = false → p.IsQuiet r.hostPaths := by
    intro hdata hkind
    have hread := Payload.ofJson?_toJson hdata fun t ht => (hflat t ht).1
    rw [hp] at hread
    cases hread
    exact ⟨hkind, fun t ht => (hflat t ht).2⟩
  cases k <;> cases ht
  case array => cases hp; exact ⟨rfl, nofun⟩
  case function => exact hk.elim
  case error => exact hk.elim
  case date x =>
    obtain ⟨time, rfl⟩ := Payload.eq_date_of_ofJson? hp
    exact ⟨rfl, nofun⟩
  case promise state =>
    cases state with
    | pending => cases hp; exact ⟨rfl, nofun⟩
    | _ => exact hsame rfl rfl
  all_goals exact hsame rfl rfl

theorem isQuiet_writtenEntry {o : Object} (hk : o.kind.IsInert) :
    (r.writtenEntry ρ o).IsQuiet r.hostPaths := by
  refine ⟨fun t ht => ?_, fun type p hname hp => ?_⟩
  · obtain ⟨w, rfl, -⟩ := mem_mentions hk ht
    exact isQuiet_written r ρ w
  · cases ht : o.kind.type? with
    | none =>
      simp only [Realm.writtenEntry, ht, Option.map_none, Option.getD_none] at hname
      exact absurd hname (name_ne_plainType type)
    | some t =>
      simp only [Realm.writtenEntry, ht, Option.map_some, Option.getD_some] at hname hp
      obtain rfl := ObjectType.name_injective hname
      exact isQuiet_payload hk ht hp

/-- **No function is made for the envelope of an inert graph.** -/
theorem Realm.IsWrittenAs.isQuiet (hgraph : r.IsInertGraph v) (he : r.IsWrittenAs v ρ e) :
    e.IsQuiet r.hostPaths := by
  refine ⟨he.root ▸ isQuiet_written r ρ v, fun reference entry hentry => ?_⟩
  obtain ⟨id, o, hid, ho, -, rfl⟩ := he.find hgraph hentry
  exact isQuiet_writtenEntry (hgraph.inert id o hid ho)

/-! ## Round trips -/

/-- **A round trip disturbs nothing**, however it ends, where no function is made for the
envelope. -/
theorem undisturbed_of_ensureSerializable {r₁ : Realm} {out : Except Fault Value}
    (hserialize : Yields (@serialize (engine d) v {}) r e r₁) (hpaths : r₁.PathsAreQuiet)
    (he : e.IsQuiet r₁.hostPaths) (hrun : r.run (@ensureSerializable (engine d) v) = (out, r'))
    (hfuel : out ≠ .error .outOfFuel) : r₁.Undisturbed r' := by
  let _ : Machine := engine d
  have hcheck : ∀ out r', r.run (checkRoundTrip v) = (out, r') → out ≠ .error .outOfFuel →
      r₁.Undisturbed r' := by
    intro out r' hrun hfuel
    unfold checkRoundTrip at hrun
    rw [run_bind, show r.run (serialize v {}) = _ from hserialize] at hrun
    dsimp only at hrun
    rw [run_bind] at hrun
    split at hrun
    · next copy r₂ h₂ =>
      have hread : r₁.Undisturbed r₂ := undisturbed_of_deserialize hpaths he h₂ nofun
      refine ((show Preserves r₁.Undisturbed _ from ?_) r₂ out r' hread hrun hfuel).1
      -- the comparison only looks at the realm
      refine upholds_get.bind fun r _ => ?_
      split
      · exact Preserves.pure _
      · exact upholds_throw _ _
    · next fault r₂ h₂ =>
      cases hrun
      exact undisturbed_of_deserialize hpaths he h₂ fun he => hfuel (by cases he; rfl)
  refine holds_of_noted (I := r₁.Undisturbed) (fun _ _ h => { h with })
    (fun _ => upholds_get.bind fun _ _ => Preserves.pure _) (fun out r' hrun hfuel => ?_) _ _ hrun
    hfuel
  rw [run_bind] at hrun
  split at hrun
  · next r₂ h₂ =>
    cases hrun
    exact hcheck _ _ h₂ nofun
  · next fault r₂ h₂ =>
    cases hrun
    exact hcheck _ _ h₂ fun he => hfuel (by cases he; rfl)

/-! ## Suspending again -/

theorem Realm.PathsAreQuiet.mono (h : r.PathsAreQuiet) (hgrows : r.Grows r') : r'.PathsAreQuiet :=
  fun id path hpath depth _ hr => h id path (hgrows.hostPaths ▸ hpath) depth _ (hgrows.trans hr)

/-- **An inert graph has an envelope, and keeps it** wherever nothing has been disturbed since. Only
references are given for it, and an event is noted. -/
theorem yields_serialize_again (hsound : r.Sound) (hgraph : r.IsInertGraph v)
    (hsymbols : r.HasSymbols v) (hdepth : r.store.size < d) :
    ∃ e ρ events, r.IsWrittenAs v ρ e
      ∧ Yields (@serialize (engine d) v {}) r e { r.giving ρ with events }
      ∧ ∀ r', Realm.Undisturbed { r.giving ρ with events } r' →
        ∃ events', Yields (@serialize (engine d) v {}) r' e { r' with events := events' } := by
  obtain ⟨ρ, e, hwalk, hwritten⟩ := yields_walkFrom hsound hgraph hdepth
  have hsafe : e.checkSafe = .ok () :=
    ((@ends_walkFrom (engine d) (safeMachine_engine d) false v none).of_yields hsound.types hwalk).2
  obtain ⟨events, hserialize⟩ := hwalk.serialize_of_walkFrom hsafe
  refine ⟨e, ρ, events, hwritten, hserialize, fun r' hr' => ?_⟩
  have hgiven : r.Undisturbed { r.giving ρ with events } :=
    { Realm.Undisturbed.refl r with references := hwritten.le }
  have hmirrors : r.Mirrors v r' := (hgiven.trans hr').mirrors hsymbols
  obtain ⟨ρ', hρ', -, hagain⟩ := Yields.walkFrom_again (ρ := r.references) hmirrors hgraph
    hsound.types hsound.references hwalk
  obtain rfl : ρ = ρ' := congrArg Realm.references hρ'
  exact (hagain hr'.references).serialize_of_walkFrom hsafe

/-- In a small realm the only path is the name of a variable, for which nothing runs. -/
theorem Realm.small_pathsAreQuiet (objects : Array Object) (known : ObjectId) :
    (small objects known).PathsAreQuiet := by
  intro id path hpath depth r' hr out r'' hrun hfuel
  obtain ⟨-, rfl⟩ := small_pathOf? hpath
  cases depth with
  | zero =>
    -- the name cannot be looked up without fuel
    have hparse : ∃ node span,
        Script.parseExpression "x" recordedLabel = .ok (.ident "x" node span) := ⟨_, _, rfl⟩
    obtain ⟨node, span, hparse⟩ := hparse
    unfold resolvePath at hrun
    rw [hparse] at hrun
    cases hrun
    exact absurd rfl hfuel
  | succ depth =>
    have hyields := yields_resolvePath_small hr depth
    cases hyields.symm.trans hrun
    exact ⟨.refl r', .refl r', rfl⟩

theorem knotRealm_hasSymbols : knotRealm.HasSymbols (.object 0) := by
  rintro s (hs | ⟨id, o, -, ho, hkey⟩)
  · simpa using knotRealm_holds hs
  · rcases knotRealm_get ho with ⟨rfl, rfl⟩ | ⟨rfl, rfl⟩ | ⟨rfl, rfl⟩
    · have hkey : Key.symbol s ∈ [Key.text "self", .text "elements", .text "size"] := hkey
      exact absurd hkey (by simp)
    · cases hkey
    · cases hkey

/-- **Verifying does not disturb.** A value with an inert graph is suspended: references are given
for that, and an event is noted, and nothing else changes. The value can be suspended again, with the
same envelope and so with the same digest. A round trip, made before that or afterwards, changes no
object that was there, however it ends, and then too the value is suspended with the same
envelope. -/
theorem serialize_undisturbed (hsound : r.Sound) (hgraph : r.IsInertGraph v)
    (hsymbols : r.HasSymbols v) (hpaths : r.PathsAreQuiet) (hdepth : r.store.size < d) :
    ∃ e ρ events, Yields (@serialize (engine d) v {}) r e { r.giving ρ with events }
      ∧ (∃ events', Yields (@serialize (engine d) v {}) { r.giving ρ with events } e
          { r.giving ρ with events := events' })
      ∧ ∀ r₀ out r', r₀ = r ∨ r₀ = { r.giving ρ with events } →
        r₀.run (@ensureSerializable (engine d) v) = (out, r') → out ≠ .error .outOfFuel →
          Realm.Undisturbed { r.giving ρ with events } r'
            ∧ ∃ events', Yields (@serialize (engine d) v {}) r' e
              { r' with events := events' } := by
  obtain ⟨e, ρ, events, hwritten, hserialize, hagain⟩ :=
    yields_serialize_again hsound hgraph hsymbols hdepth
  have hgrows : ∀ events, r.Grows { r.giving ρ with events } := fun events =>
    { Realm.grows_giving hwritten.le with }
  have hquiet : e.IsQuiet r.hostPaths := hwritten.isQuiet hgraph
  have hself : ∀ events', Realm.Undisturbed { r.giving ρ with events }
      { r.giving ρ with events := events' } :=
    fun events' => { Realm.Undisturbed.refl { r.giving ρ with events } with }
  obtain ⟨events', hsecond⟩ := hagain _ (.refl _)
  refine ⟨e, ρ, events, hserialize, ⟨events', hsecond⟩, fun r₀ out r' hr₀ hrun hfuel => ?_⟩
  have hundisturbed : Realm.Undisturbed { r.giving ρ with events } r' := by
    rcases hr₀ with rfl | rfl
    · exact undisturbed_of_ensureSerializable hserialize (hpaths.mono (hgrows _)) hquiet hrun hfuel
    · exact (hself events').trans
        (undisturbed_of_ensureSerializable hsecond (hpaths.mono (hgrows _)) hquiet hrun hfuel)
  exact ⟨hundisturbed, hagain r' hundisturbed⟩

/-- The object that holds itself is suspended, verified and suspended again. -/
theorem serialize_undisturbed_knot : knotRealm.Sound ∧ knotRealm.IsInertGraph (.object 0)
    ∧ knotRealm.HasSymbols (.object 0) ∧ knotRealm.PathsAreQuiet ∧ knotRealm.store.size < 9
    ∧ (knotRealm.run (@ensureSerializable (engine 9) (.object 0))).1.isOk = true
    ∧ ∃ e ρ events, Yields (@serialize (engine 9) (.object 0) {}) knotRealm e
        { knotRealm.giving ρ with events }
      ∧ (∃ events', Yields (@serialize (engine 9) (.object 0) {})
          { knotRealm.giving ρ with events } e { knotRealm.giving ρ with events := events' })
      ∧ ∀ r₀ out r', r₀ = knotRealm ∨ r₀ = { knotRealm.giving ρ with events } →
        r₀.run (@ensureSerializable (engine 9) (.object 0)) = (out, r') → out ≠ .error .outOfFuel →
          Realm.Undisturbed { knotRealm.giving ρ with events } r'
            ∧ ∃ events', Yields (@serialize (engine 9) (.object 0) {}) r' e
              { r' with events := events' } :=
  have hpaths : knotRealm.PathsAreQuiet := Realm.small_pathsAreQuiet _ _
  ⟨knotRealm_sound, knotRealm_isDataGraph.isInertGraph, knotRealm_hasSymbols, hpaths, by decide,
    by decide +kernel, serialize_undisturbed knotRealm_sound knotRealm_isDataGraph.isInertGraph
      knotRealm_hasSymbols hpaths (by decide)⟩

end Stasis
