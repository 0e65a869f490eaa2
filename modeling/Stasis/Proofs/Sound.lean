import Mathlib
import Stasis.Proofs.Given
import Stasis.Proofs.OpenSessions

/-!
# Realms stay sound

The objects and the references of a realm are well formed from the beginning, and nothing that is asked
of it changes that: scripts may do what they please, envelopes may say anything, and what fails may be
caught. Nothing is said of realms that have got types of objects besides the built-in ones.

* `Store.Sound` and its parts can be decided; `Store.sound_fresh` finds that it is so in a new realm.
* `Evolving`: an action in which sound objects stay sound, whatever comes of it.
* `evolves_perform`: whatever is asked for does that.
* `evolves_drive`: so does any sequence of it.
* `sound_of_drive`: a new realm is sound ever after.
* `exists_becomes_of_drive`, `yields_resumeBuffer_of_drive`: what that says of buffers.
-/

namespace Stasis

variable {α β : Type} {r r' : Realm} {config : Config}
  {operations : List (ℕ × (α : Type) × Operation α)} {out : Except Fault Unit}

/-! ## New realms -/

instance (k : Kind) : Decidable k.Sound :=
  match k with
  | .map entries => inferInstanceAs (Decidable (∀ k ∈ entries.keys, CollectionKey.ofValue k.toValue = k))
  | .set elements => inferInstanceAs (Decidable (∀ k ∈ elements.keys, CollectionKey.ofValue k.toValue = k))
  | .wrapper v => inferInstanceAs (Decidable (v.isObject = false ∧ v.isNullish = false))
  | .buffer b => decidable_of_iff (∀ max ∈ b.maxLength.toList, b.bytes.size ≤ max) <| by
    simp [Kind.Sound]
  | .ordinary | .array | .function _ | .date _ | .regexp .. | .error | .bytes .. | .promise _ =>
    .isTrue trivial

instance (s : Store) (d : Descriptor) : Decidable (d.Sound s) :=
  match d with
  | .data .. => .isTrue trivial
  | .accessor g h _ _ => inferInstanceAs (Decidable (∀ f ∈ g.toList ++ h.toList, s.isFunction f = true))

theorem Object.beginsWithLength_iff {o : Object} : o.BeginsWithLength ↔
    ∃ q ∈ o.properties.entries.head?.toList, q.1 = .length ∧
      q.2.isData = true ∧ q.2.isEnumerable = false ∧ q.2.isConfigurable = false := by
  unfold BeginsWithLength
  constructor
  · rintro ⟨v, w, rest, hentries⟩
    exact ⟨(.length, .data v w false false), by simp [hentries], rfl, rfl, rfl, rfl⟩
  · rintro ⟨⟨key, d⟩, hq, rfl, hdata, henumerable, hconfigurable⟩
    obtain ⟨rest, hentries⟩ := List.head?_eq_some_iff.mp (Option.mem_toList.mp hq)
    cases d with
    | data v w e c =>
      obtain rfl : e = false := henumerable
      obtain rfl : c = false := hconfigurable
      exact ⟨v, w, rest, hentries⟩
    | accessor => cases hdata

instance (o : Object) : Decidable o.BeginsWithLength := decidable_of_iff _ Object.beginsWithLength_iff.symm

instance (s : Store) (o : Object) : Decidable (o.Sound s) :=
  decidable_of_iff (o.kind.Sound ∧ (∀ d ∈ o.properties.values, d.Sound s) ∧
    (o.kind.isArray = true → o.BeginsWithLength)) <| by
    have harray : o.kind.isArray = true ↔ o.kind = .array := by
      cases o.kind <;> simp [Kind.isArray]
    rw [harray]
    exact ⟨fun h => ⟨h.1, h.2.1, h.2.2⟩, fun h => ⟨h.kind, h.properties, h.array⟩⟩

theorem Store.sound_iff {s : Store} : s.Sound ↔ ∀ o ∈ s.objects.toList, o.Sound s := by
  refine ⟨fun h o ho => ?_, fun h id o ho => h o ?_⟩
  · obtain ⟨id, hid⟩ := List.getElem?_of_mem ho
    exact h id o (get_eq_ok_iff.mpr (Array.getElem?_toList ▸ hid))
  · exact List.mem_of_getElem? (Array.getElem?_toList ▸ get_eq_ok_iff.mp ho)

instance (s : Store) : Decidable s.Sound := decidable_of_iff _ Store.sound_iff.symm

/-- A configuration has no say in what there is at the beginning. -/
theorem store_fresh (config : Config) : (Realm.fresh config).store = (Realm.fresh {}).store := by
  unfold Realm.fresh
  rcases Symbols.create {} (some "Symbol.iterator") with ⟨iterator, symbols⟩
  dsimp only
  rcases (buildGlobals iterator).run {} with ⟨known, store⟩
  rfl

/-- **The built-in objects are sound.** -/
theorem Store.sound_fresh (config : Config) : (Realm.fresh config).store.Sound := by
  rw [store_fresh]
  decide +kernel

theorem references_fresh (config : Config) : (Realm.fresh config).references = {} := by
  unfold Realm.fresh
  split
  split
  rfl

theorem hasTypes_fresh (config : Config) : (Realm.fresh config).HasTypes := by
  unfold Realm.HasTypes Realm.fresh
  split
  split
  rfl

/-! ## Types of objects -/

/-- A type that is known stays known. -/
theorem Realm.Step.objectTypes (h : r.Step r') : r.objectTypes <+: r'.objectTypes := by
  cases h with
  | change hchange => exact hchange.objectTypes_eq ▸ List.prefix_rfl
  | objectType type => exact List.prefix_append _ _
  | _ => exact List.prefix_rfl

theorem Steady.objectTypes {x : Run α} (hx : Steady [] x) (r : Realm) :
    r.objectTypes <+: (r.run x).2.objectTypes :=
  hx.last (P := fun now => r.objectTypes <+: now.objectTypes)
    (fun hnow hstep => hnow.trans hstep.objectTypes) rfl List.prefix_rfl

/-! ## Whatever comes of it -/

/-- The action leaves the types of objects as they are and sound objects sound, also if it fails for a
mistake of the engine. -/
structure Evolving (x : Run α) : Prop where
  types : ∀ r : Realm, r.HasTypes → (r.run x).2.HasTypes
  evolves : ∀ r : Realm, r.HasTypes → r.EvolvesBy x

section Evolving

variable {x : Run α} {f : α → Run β}

theorem Ends.evolving {Q : α → Prop} (hx : Ends x Q) : Evolving x :=
  ⟨fun r hr => (hx.runs r hr).1, hx.evolves⟩

theorem Behaves.evolving (hx : Behaves x) : Evolving x := hx.ends.evolving

theorem evolving_throw (fault : Fault) : Evolving (throw fault : Run α) :=
  ⟨fun _ hr => hr, fun _ _ => .refl⟩

theorem evolving_ofExcept (outcome : Except EngineError α) : Evolving (ofExcept outcome) := by
  cases outcome with
  | ok a => exact (Behaves.pure a).evolving
  | error cause => exact evolving_throw _

theorem Evolving.bind (hx : Evolving x) (hf : ∀ a, Evolving (f a)) : Evolving (x >>= f) := by
  refine ⟨fun r hr => ?_, fun r hr => (hx.evolves r hr).bind fun a r' h => ?_⟩ <;>
    have htypes := hx.types r hr
  · rw [run_bind]
    generalize r.run x = out at htypes ⊢
    obtain ⟨e | a, r'⟩ := out
    · exact htypes
    · exact (hf a).types r' htypes
  · rw [show r.run x = _ from h] at htypes
    exact (hf a).evolves r' htypes

theorem Evolving.attempt (hx : Evolving x) : Evolving (Stasis.attempt x) := by
  refine ⟨fun r hr => ?_, fun r hr => (hx.evolves r hr).attempt⟩
  rw [run_attempt_snd]
  exact hx.types r hr

theorem Evolving.noted (hx : Evolving x) (component event : String)
    {detail : Except EngineError α → Run String} (hd : ∀ outcome, Behaves (detail outcome)) :
    Evolving (Stasis.noted component event detail x) := by
  refine hx.attempt.bind fun outcome => (hd outcome).evolving.bind fun text => ?_
  cases outcome <;> exact (behaves_note ..).evolving.bind fun _ => evolving_ofExcept _

end Evolving

/-- Entries that are supplied may be anything. -/
theorem evolving_serialize [Machine] [SafeMachine] (v : Value) (options : SuspendOptions) :
    Evolving (serialize v options) := by
  unfold serialize
  refine Evolving.noted ?_ _ _ fun outcome => by cases outcome <;> exact Behaves.pure _
  have hwalk : Evolving (walkFrom options.known options.stop v options.path) := by
    unfold walkFrom
    exact (SafeMachine.explores _ v _).evolving.bind fun _ =>
      (evolving_ofExcept _).bind fun _ => (Behaves.pure _).evolving
  refine hwalk.bind fun e => behaves_get.evolving.bind fun r => ?_
  split
  · exact (evolving_ofExcept _).bind fun _ => (Behaves.pure e).evolving
  · exact (Behaves.pure e).evolving

/-! ## Whatever is asked for -/

/-- **Whatever is asked for leaves sound objects sound**, and what they hold becomes something else only
as collections, buffers, promises and classes do. -/
theorem evolves_perform (hr : r.HasTypes) (depth : ℕ) (operation : Operation α) :
    r.EvolvesBy (@Operation.perform (engine depth) _ operation) := by
  let _ := engine depth
  cases operation with
  | request q => exact (SafeMachine.behaves q).ends.evolves r hr
  | evalScript source => exact (behaves_evalScript source).ends.evolves r hr
  | evalInstrumented source => exact (behaves_evalInstrumented source).ends.evolves r hr
  | getNamed v name => exact (behaves_getNamed v name).ends.evolves r hr
  | getGlobal name => exact (behaves_getGlobal name).ends.evolves r hr
  | setGlobal name v => exact (behaves_setGlobal name v).ends.evolves r hr
  | serialize v options => exact (evolving_serialize v options).evolves r hr
  | deserialize e => exact (behaves_deserialize e).ends.evolves r hr
  | ensureSerializable v => exact (behaves_ensureSerializable v).ends.evolves r hr
  | registerHostRoot v path => exact (behaves_registerHostRoot v path).ends.evolves r hr
  | addType | drainEvents => exact .refl

/-- Types are never taken away, so that a realm that knows the built-in types only has known no others. -/
theorem Realm.HasTypes.of_isPrefix (h : r'.HasTypes) (hr : ObjectType.all <+: r.objectTypes)
    (hgrown : r.objectTypes <+: r'.objectTypes) : r.HasTypes := by
  have hle : r.objectTypes <+: ObjectType.all := h ▸ hgrown
  exact hle.eq_of_length (le_antisymm hle.length_le hr.length_le)

/-- **One thing after another leaves sound objects sound.** -/
theorem evolves_drive (hr : ObjectType.all <+: r.objectTypes)
    (h : r.run (drive operations) = (out, r')) (hr' : r'.HasTypes) (hs : r.store.Sound) :
    r.store.Evolves r'.store := by
  induction operations generalizing r with
  | nil =>
    cases h
    exact .refl hs
  | cons first rest ih =>
    obtain ⟨depth, α, operation⟩ := first
    have hgrows := (steady_drive ((depth, ⟨α, operation⟩) :: rest) []).objectTypes r
    rw [h] at hgrows
    have htypes : r.HasTypes := hr'.of_isPrefix hr hgrows
    have hevolves := (evolves_perform htypes depth operation).attempt hs
    have hgrown := (steady_perform depth operation []).attempt.objectTypes r
    unfold drive at h
    rw [run_bind] at h
    rcases hrun : r.run (attempt (@Operation.perform (engine depth) _ operation)) with ⟨fault | _, r₁⟩ <;>
      rw [hrun] at h hevolves hgrown
    · cases h
      exact hevolves
    · exact hevolves.trans (ih (hr.trans hgrown) h hevolves.sound)

/-- **A new realm is sound ever after**, whatever has been asked of it, if it has got no types of
objects. -/
theorem sound_of_drive (h : (Realm.fresh config).run (drive operations) = (out, r)) (hr : r.HasTypes) :
    r.Sound where
  references := by
    have hfresh : (Realm.fresh config).references.Sound := by
      rw [references_fresh]
      exact References.sound_empty
    exact ((steady_drive operations []).goesOn hfresh h).sound
  objects := (evolves_drive (hasTypes_fresh config ▸ List.prefix_rfl) h hr (Store.sound_fresh config)).sound
  types := hr

/-! ## Buffers -/

/-- **A buffer keeps its limit, and one that is detached stays so**, whatever is done with it. -/
theorem exists_becomes_of_drive {id : ObjectId} {b : Buffer} (hr : r.Sound)
    (h : r.run (drive operations) = (out, r')) (hr' : r'.HasTypes) (hb : r.store.HasKind id (.buffer b)) :
    ∃ b', r'.store.HasKind id (.buffer b') ∧ b'.maxLength = b.maxLength ∧
      (b.detached = true → b'.detached = true) := by
  have hevolves := evolves_drive (hr.types ▸ List.prefix_rfl) h hr' hr.objects
  obtain ⟨k, hk, hbecomes⟩ := hevolves.becomes id _ hb
  obtain ⟨b', rfl, hb'⟩ := hbecomes.buffer
  exact ⟨b', hk, hb'.maxLength, hb'.detached⟩

/-- **Buffers can be read again**, whatever has been done with them: what is written of a buffer is read
as the same buffer. -/
theorem yields_resumeBuffer_of_drive {id : ObjectId} {b : Buffer}
    (h : (Realm.fresh config).run (drive operations) = (out, r)) (hr : r.HasTypes)
    (hb : r.store.HasKind id (.buffer b)) :
    Yields (resumeBuffer b.detached b.maxLength.isSome b.bytes.size (b.maxLength.getD b.bytes.size)
      (Text.hexOfBytes b.bytes.toList)) r (.object r.store.size)
      (r.push { prototype := some r.known.buffer, kind := .buffer b }) := by
  obtain ⟨o, ho, hkind⟩ := hb
  have hsound : (Kind.buffer b).Sound := hkind ▸ ((sound_of_drive h hr).objects id o ho).kind
  exact yields_resumeBuffer hsound r

end Stasis
