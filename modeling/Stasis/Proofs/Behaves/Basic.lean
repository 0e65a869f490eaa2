import Mathlib
import Stasis.Proofs.Evolution
import Stasis.Proofs.Moments

/-!
# Actions that fail for no cause of the engine's own

Three causes of failure stand for mistakes of the engine: two encoders of one type, an entry that was
begun and not finished, and an envelope that no interchange text can hold. In a realm that knows the
built-in types, no action fails for one of them. And if objects are sound there, they are sound
whenever an action has ended.

* `EngineError.isInternal`: these causes.
* `Ends`: how an action ends, with what is known of its value.
* `Behaves`: an action that ends so, with nothing said of its value, and is steady.
* `BehavesSince`: an action for which the store has to be as told.
* `Leaves`: what an action leaves in the store, as told of its value.
* `Ends.bind`, `Behaves.bind`, `Behaves.bind_leaving`, `Leaves.bind`: one action after another.
* `Ends.attempt`, `Behaves.noted`, `Behaves.nested`: actions made of actions.
-/

namespace Stasis

/-- The cause is a mistake of the engine. -/
def EngineError.isInternal : EngineError → Bool
  | duplicateEncoder _ | unresolvedPlaceholder _ | residue _ => true
  | unregistered .. | ambiguousEncoder .. | missingEntry _ | unknownType _ | invalidEnvelope _
  | mismatch _ | source _ | thrown .. | heap _ | callDepth _ => false

/-- The failure is no mistake of the engine. -/
def Fault.IsExpected : Fault → Prop
  | error cause => cause.isInternal = false
  | outOfFuel => True

/-- The realm knows the built-in types of objects, and no others. -/
def Realm.HasTypes (r : Realm) : Prop := r.objectTypes = ObjectType.all

variable {α β σ : Type} {r : Realm}

/-- What an action has ended with is a value as told, or a failure that is no mistake of the
engine. -/
def EndsAs (Q : α → Prop) : Except Fault α → Prop
  | .ok a => Q a
  | .error fault => fault.IsExpected

/-- What was caught is a value as told, or a cause that is no mistake of the engine. -/
def CaughtAs (Q : α → Prop) : Except EngineError α → Prop
  | .ok a => Q a
  | .error cause => cause.isInternal = false

/-- Begun with sound objects, the action leaves sound ones, which hold what they have become. -/
def Realm.EvolvesBy (r : Realm) (x : Run α) : Prop := r.store.Sound → r.store.Evolves (r.run x).2.store

/-- Begun in a realm with the built-in types, the action leaves one. If it fails, that is no mistake
of the engine, and a value that it ends with is as told. Either way, sound objects stay sound. -/
structure Ends (x : Run α) (Q : α → Prop) : Prop where
  runs : ∀ r : Realm, r.HasTypes → (r.run x).2.HasTypes ∧ EndsAs Q (r.run x).1
  evolves : ∀ r : Realm, r.HasTypes → r.EvolvesBy x

/-- The action ends well or for a cause that is no mistake of the engine, and is steady, whatever
envelopes are being read. -/
structure Behaves (x : Run α) : Prop where
  ends : Ends x fun _ => True
  steady : ∀ heaps, Steady heaps x

section Ends

variable {x : Run α} {f : α → Run β} {Q Q' : α → Prop} {P : β → Prop}

theorem Ends.mono (hx : Ends x Q) (h : ∀ a, Q a → Q' a) : Ends x Q' := by
  refine ⟨fun r hr => ?_, hx.evolves⟩
  have hends := hx.runs r hr
  generalize r.run x = out at hends ⊢
  obtain ⟨e | a, r'⟩ := out
  · exact hends
  · exact ⟨hends.1, h a hends.2⟩

theorem Ends.behaves (hx : Ends x Q) (hsteady : ∀ heaps, Steady heaps x) : Behaves x :=
  ⟨hx.mono fun _ _ => trivial, hsteady⟩

/-- The second action begins with the objects that the first one has left. -/
theorem Realm.EvolvesBy.bind (hx : r.EvolvesBy x)
    (hf : ∀ a r', Yields x r a r' → r'.EvolvesBy (f a)) : r.EvolvesBy (x >>= f) := by
  intro hs
  have hevolves := hx hs
  rw [run_bind]
  rcases hout : r.run x with ⟨e | a, r'⟩ <;> rw [hout] at hevolves
  · exact hevolves
  · exact hevolves.trans (hf a r' hout hevolves.sound)

theorem Ends.bind (hx : Ends x Q) (hf : ∀ a, Q a → Ends (f a) P) : Ends (x >>= f) P := by
  refine ⟨fun r hr => ?_, fun r hr => (hx.evolves r hr).bind fun a r' h => ?_⟩ <;>
    have hends := hx.runs r hr
  · rw [run_bind]
    generalize r.run x = out at hends ⊢
    obtain ⟨e | a, r'⟩ := out
    · exact hends
    · exact (hf a hends.2).runs r' hends.1
  · rw [show r.run x = _ from h] at hends
    exact (hf a hends.2).evolves r' hends.1

/-- After an action of which nothing is known but that it behaves. -/
theorem Behaves.bind_ends (hx : Behaves x) (hf : ∀ a, Ends (f a) P) : Ends (x >>= f) P :=
  hx.ends.bind fun a _ => hf a

@[grind ←]
theorem Behaves.bind (hx : Behaves x) (hf : ∀ a, Behaves (f a)) : Behaves (x >>= f) :=
  ⟨hx.bind_ends fun a => (hf a).ends, fun heaps => (hx.steady heaps).bind fun a => (hf a).steady heaps⟩

theorem Ends.of_yields {r' : Realm} {a : α} (hx : Ends x Q) (hr : r.HasTypes)
    (h : Yields x r a r') : Q a := by
  have hends := (hx.runs r hr).2
  rw [h] at hends
  exact hends

theorem Ends.of_raises {r' : Realm} {cause : EngineError} (hx : Ends x Q) (hr : r.HasTypes)
    (h : Raises x r cause r') : cause.isInternal = false := by
  have hends := (hx.runs r hr).2
  rw [h] at hends
  exact hends

end Ends

/-- An action that comes first in one case only. -/
theorem Ends.guard {c : Prop} [Decidable c] {x : Run Unit} {rest : Unit → Run α} {Q : α → Prop}
    (hx : Behaves x) (hrest : ∀ u, Ends (rest u) Q) : Ends (if c then x >>= rest else rest ()) Q := by
  split
  · exact hx.bind_ends hrest
  · exact hrest ()

theorem Behaves.guard {c : Prop} [Decidable c] {x : Run Unit} {rest : Unit → Run α}
    (hx : Behaves x) (hrest : ∀ u, Behaves (rest u)) :
    Behaves (if c then x >>= rest else rest ()) :=
  ⟨Ends.guard hx fun u => (hrest u).ends, fun heaps =>
    Steady.guard (hx.steady heaps) fun u => (hrest u).steady heaps⟩

/-! ## Primitive actions -/

theorem Ends.pure {a : α} {Q : α → Prop} (h : Q a) : Ends (Pure.pure a) Q :=
  ⟨fun _ hr => ⟨hr, h⟩, fun _ _ => .refl⟩

@[grind ←]
theorem Behaves.pure (a : α) : Behaves (Pure.pure a) :=
  ⟨Ends.pure trivial, fun _ => Steady.pure a⟩

theorem ends_throw (fault : Fault) (h : fault.IsExpected) (Q : α → Prop) :
    Ends (throw fault) Q :=
  ⟨fun _ hr => ⟨hr, h⟩, fun _ _ => .refl⟩

theorem behaves_throw {fault : Fault} (h : fault.IsExpected) : Behaves (throw fault : Run α) :=
  ⟨ends_throw fault h _, fun _ => steady_throw fault⟩

@[grind ←]
theorem behaves_outOfFuel : Behaves (throw .outOfFuel : Run α) := behaves_throw trivial

@[grind ←]
theorem behaves_raise {cause : EngineError} (h : cause.isInternal = false) :
    Behaves (raise cause : Run α) := behaves_throw h

theorem CaughtAs.ends {Q : α → Prop} {x : Except EngineError α} (h : CaughtAs Q x) :
    Ends (ofExcept x) Q := by
  cases x with
  | ok a => exact Ends.pure h
  | error cause => exact ends_throw (.error cause) h Q

theorem ends_get : Ends (get : Run Realm) Realm.HasTypes :=
  ⟨fun _ hr => ⟨hr, hr⟩, fun _ _ => .refl⟩

@[grind ←]
theorem behaves_get : Behaves (get : Run Realm) := ends_get.behaves fun _ => steady_get

/-- A change of the realm that leaves the store alone. -/
theorem ends_modifyGet {f : Realm → α × Realm} (h : ∀ r, (f r).2.objectTypes = r.objectTypes)
    (hstore : ∀ r, (f r).2.store = r.store) : Ends (modifyGet f) fun _ => True where
  runs r hr := ⟨(h r).trans hr, trivial⟩
  evolves r _ hs := by
    show r.store.Evolves (f r).2.store
    rw [hstore]
    exact .refl hs

theorem ends_modify {f : Realm → Realm} (h : ∀ r, (f r).objectTypes = r.objectTypes)
    (hstore : ∀ r, (f r).store = r.store) : Ends (modify f) fun _ => True :=
  ends_modifyGet (f := fun r => ((), f r)) h hstore

theorem behaves_modifyGet {f : Realm → α × Realm} (h : ∀ r : Realm, r.Change (f r).2)
    (hstore : ∀ r, (f r).2.store = r.store) : Behaves (modifyGet f) :=
  ⟨ends_modifyGet (fun r => (h r).objectTypes_eq) hstore, fun _ => steady_modifyGet fun r _ => .inr (h r)⟩

theorem behaves_modify {f : Realm → Realm} (h : ∀ r : Realm, r.Change (f r))
    (hstore : ∀ r, (f r).store = r.store) : Behaves (modify f) :=
  behaves_modifyGet (f := fun r => ((), f r)) h hstore

attribute [grind =] EngineError.isInternal

@[grind ←]
theorem behaves_ofStore (read : Store → Except HeapError α) : Behaves (ofStore read) := by
  unfold ofStore
  -- nothing is linear arithmetic here, and looking for its instances would take most of the time
  grind -linarith

@[grind ←]
theorem behaves_ofRealm (read : Realm → Except HeapError α) : Behaves (ofRealm read) := by
  unfold ofRealm
  grind -linarith

/-! ## Actions for which something is known of the store -/

/-- The action behaves, if the store has evolved from one of which something is known. That is needed
for the objects only: they are sound when it has ended. -/
structure BehavesSince (K : Store → Prop) (x : Run α) : Prop where
  runs : ∀ r : Realm, r.HasTypes → (r.run x).2.HasTypes ∧ EndsAs (fun _ => True) (r.run x).1
  steady : ∀ heaps, Steady heaps x
  evolves : ∀ r : Realm, r.HasTypes → r.store.Since K → r.store.Evolves (r.run x).2.store

/-- If it ends with a value, the action leaves a store of which this is known. -/
def Leaves (K : Store → Prop) (x : Run α) (Q : α → Store → Prop) : Prop :=
  ∀ r a r', r.HasTypes → r.store.Since K → Yields x r a r' → Q a r'.store

section Since

variable {K : Store → Prop} {x : Run α} {f : α → Run β} {Q : α → Store → Prop} {P : β → Store → Prop}

@[grind ←]
theorem Behaves.since (hx : Behaves x) : BehavesSince K x :=
  ⟨hx.ends.runs, hx.steady, fun r hr hs => hx.ends.evolves r hr hs.sound⟩

theorem BehavesSince.behaves (hx : BehavesSince (fun _ => True) x) : Behaves x :=
  ⟨⟨hx.runs, fun r hr hs => hx.evolves r hr (.of hs trivial)⟩, hx.steady⟩

/-- What the first action has left in the store is known for the second one. -/
theorem BehavesSince.bind_leaving (hx : BehavesSince K x) (hq : Leaves K x Q)
    (hf : ∀ a, BehavesSince (fun s => Q a s ∧ s.Since K) (f a)) : BehavesSince K (x >>= f) := by
  refine ⟨fun r hr => ?_, fun heaps => (hx.steady heaps).bind fun a => (hf a).steady heaps,
    fun r hr hs => ?_⟩ <;> rw [run_bind]
  · have hruns := hx.runs r hr
    generalize r.run x = out at hruns ⊢
    obtain ⟨e | a, r'⟩ := out
    · exact hruns
    · exact (hf a).runs r' hruns.1
  · have hruns := hx.runs r hr
    have hevolves := hx.evolves r hr hs
    rcases hout : r.run x with ⟨e | a, r'⟩ <;> rw [hout] at hruns hevolves
    · exact hevolves
    · have hsince : r'.store.Since fun s => Q a s ∧ s.Since K :=
        .of hevolves.sound ⟨hq r a r' hr hs hout, hs.evolves hevolves⟩
      exact hevolves.trans ((hf a).evolves r' hruns.1 hsince)

theorem BehavesSince.mono {K' : Store → Prop} (hx : BehavesSince K x) (h : ∀ s, s.Sound → K' s → K s) :
    BehavesSince K' x :=
  ⟨hx.runs, hx.steady, fun r hr hs => hx.evolves r hr (hs.imp h)⟩

/-- Also if more has happened since. -/
theorem BehavesSince.join (hx : BehavesSince K x) : BehavesSince (fun s => s.Since K) x :=
  ⟨hx.runs, hx.steady, fun r hr hs => hx.evolves r hr (hs.join fun _ h => h)⟩

theorem Behaves.bind_leaving (hx : Behaves x) (hq : Leaves (fun _ => True) x Q)
    (hf : ∀ a, BehavesSince (Q a) (f a)) : Behaves (x >>= f) :=
  (hx.since.bind_leaving hq fun a => (hf a).mono fun _ _ h => h.1).behaves

theorem Behaves.bind_since {K : α → Store → Prop} (hx : Behaves x)
    (hq : Leaves (fun _ => True) x fun a s => s.Since (K a)) (hf : ∀ a, BehavesSince (K a) (f a)) :
    Behaves (x >>= f) :=
  hx.bind_leaving hq fun a => (hf a).join

@[grind ←]
theorem BehavesSince.bind (hx : BehavesSince K x) (hf : ∀ a, BehavesSince K (f a)) :
    BehavesSince K (x >>= f) :=
  hx.bind_leaving (Q := fun _ _ => True) (fun _ _ _ _ _ _ => trivial) fun a =>
    (hf a).join.mono fun _ _ h => h.2

theorem Leaves.mono {K' : Store → Prop} {Q' : α → Store → Prop} (h : Leaves K x Q)
    (hk : ∀ s, s.Sound → K' s → K s) (hq : ∀ a s, Q a s → Q' a s) : Leaves K' x Q' :=
  fun r a r' hr hs hy => hq a _ (h r a r' hr (hs.imp hk) hy)

theorem Leaves.pure {a : α} (h : ∀ s, s.Since K → Q a s) : Leaves K (Pure.pure a) Q := by
  rintro r _ _ - hs ⟨⟩
  exact h _ hs

/-- What throws leaves nothing to be told. -/
theorem leaves_of_not_yields (h : ∀ r a r', ¬ Yields x r a r') : Leaves K x Q :=
  fun r a r' _ _ hy => absurd hy (h r a r')

theorem leaves_get : Leaves K get fun r s => s = r.store := by
  rintro r _ _ - - ⟨⟩
  rfl

theorem Leaves.bind (hx : BehavesSince K x) (hq : Leaves K x Q)
    (hf : ∀ a, Leaves (fun s => Q a s ∧ s.Since K) (f a) P) : Leaves K (x >>= f) P := by
  intro r b r'' hr hs hy
  obtain ⟨a, r', hx', hy⟩ := yields_bind_iff.mp hy
  have hruns := (hx.runs r hr).1
  have hevolves := hx.evolves r hr hs
  rw [show r.run x = _ from hx'] at hruns hevolves
  exact hf a r' b r'' hruns (.of hevolves.sound ⟨hq r a r' hr hs hx', hs.evolves hevolves⟩) hy

/-- What was known before something else is known still. -/
theorem Leaves.behind {K' : Store → Prop} (h : Leaves K x Q) :
    Leaves (fun s => K' s ∧ s.Since K) x Q :=
  fun r a r' hr hs hy => h r a r' hr (hs.join fun _ h => h.2) hy

/-- What is left by the first action does not matter. -/
theorem Behaves.bind_leaves (hx : Behaves x) (hf : ∀ a, Leaves K (f a) P) : Leaves K (x >>= f) P :=
  Leaves.bind (Q := fun _ _ => True) hx.since (fun _ _ _ _ _ _ => trivial) fun a => (hf a).behind

/-- An action that comes first in one case only. -/
theorem Leaves.guard {c : Prop} [Decidable c] {x : Run Unit} {rest : Unit → Run α} {Q : α → Store → Prop}
    (hx : Behaves x) (hrest : ∀ u, Leaves K (rest u) Q) :
    Leaves K (if c then x >>= rest else rest ()) Q := by
  split
  · exact hx.bind_leaves hrest
  · exact hrest ()

/-- A change of the store alone. -/
theorem behavesSince_changeStore {change : Store → Except HeapError (Store × α)}
    (h : ∀ s s' a, s.Since K → change s = .ok (s', a) → s.Evolves s') :
    BehavesSince K (changeStore change) where
  runs r hr := by
    cases hc : change r.store with
    | ok out =>
      rw [show r.run (changeStore change) = _ from yields_changeStore hc]
      exact ⟨hr, trivial⟩
    | error cause =>
      rw [show r.run (changeStore change) = _ from raises_changeStore hc]
      exact ⟨hr, rfl⟩
  steady _ := by
    unfold changeStore
    refine steady_get.bind fun r => ?_
    split
    · exact Steady.bind (steady_modifyGet fun _ _ => .inr (.store _)) fun _ => Steady.pure _
    · exact steady_throw _
  evolves r _ hs := by
    cases hc : change r.store with
    | ok out =>
      rw [show r.run (changeStore change) = _ from yields_changeStore hc]
      exact h _ _ _ hs hc
    | error cause =>
      rw [show r.run (changeStore change) = _ from raises_changeStore hc]
      exact .refl hs.sound

theorem behaves_changeStore {change : Store → Except HeapError (Store × α)}
    (h : ∀ s s' a, s.Sound → change s = .ok (s', a) → s.Evolves s') : Behaves (changeStore change) :=
  (behavesSince_changeStore fun s s' a hs => h s s' a hs.sound).behaves

/-- Nothing comes after an action that gives no value. -/
theorem Behaves.bind_of_not_yields (hx : Behaves x) (h : ∀ r a r', ¬ Yields x r a r') :
    Behaves (x >>= f) := by
  have hrun : ∀ r : Realm, ∃ fault, (r.run x).1 = .error fault ∧
      r.run (x >>= f) = (.error fault, (r.run x).2) := by
    intro r
    rw [run_bind]
    rcases hout : r.run x with ⟨fault | a, r'⟩
    · exact ⟨fault, rfl, rfl⟩
    · exact absurd hout (h r a r')
  refine ⟨⟨fun r hr => ?_, fun r hr hs => ?_⟩, fun heaps r past hr => ?_⟩
  · obtain ⟨fault, hfault, hbind⟩ := hrun r
    have hruns := hx.ends.runs r hr
    rw [hfault] at hruns
    rw [hbind]
    exact hruns
  · obtain ⟨fault, -, hbind⟩ := hrun r
    rw [hbind]
    exact hx.ends.evolves r hr hs
  · obtain ⟨fault | a, r', later, hpass, hframe⟩ := hx.steady heaps r past hr
    · exact ⟨_, r', later, hpass.bind_error f, fun hne => hframe (by simpa using hne)⟩
    · obtain ⟨r₁, -, hyields⟩ := hpass.run_eq rfl
      exact absurd hyields (h r a r₁)

/-- Behind an action that gives no value, and that comes first in one case, the other case is known. -/
theorem BehavesSince.unless {c : Prop} [Decidable c] {x : Run Unit} {rest : Unit → Run α}
    (hx : Behaves x) (hthrows : ∀ r r', ¬ Yields x r () r') (hrest : ¬ c → BehavesSince K (rest ())) :
    BehavesSince K (if c then x >>= rest else rest ()) := by
  split
  · exact (hx.bind_of_not_yields fun r a r' => hthrows r r').since
  · next hc => exact hrest hc

end Since

/-! ## Actions made of actions -/

theorem Realm.EvolvesBy.attempt {x : Run α} (hx : r.EvolvesBy x) : r.EvolvesBy (Stasis.attempt x) := by
  intro hs
  rw [run_attempt_snd]
  exact hx hs

/-- What is caught is no mistake of the engine either. -/
theorem Ends.attempt {x : Run α} {Q : α → Prop} (hx : Ends x Q) :
    Ends (Stasis.attempt x) (CaughtAs Q) := by
  refine ⟨fun r hr => ?_, fun r hr => (hx.evolves r hr).attempt⟩
  have hends := hx.runs r hr
  rw [run_attempt]
  generalize r.run x = out at hends ⊢
  obtain ⟨(cause | _) | a, r'⟩ := out <;> exact hends

@[grind ←]
theorem Behaves.attempt {x : Run α} (hx : Behaves x) : Behaves (Stasis.attempt x) :=
  (Ends.attempt hx.ends).behaves fun heaps => (hx.steady heaps).attempt

@[grind ←]
theorem behaves_note (component event outcome errorCode detail : String) :
    Behaves (note component event outcome errorCode detail) :=
  behaves_modify (fun _ => .event ..) fun _ => rfl

/-- Noting how an action ended changes nothing about that. -/
theorem Ends.noted {x : Run α} {Q : α → Prop} (hx : Ends x Q) (component event : String)
    {detail : Except EngineError α → Run String} (hd : ∀ outcome, Behaves (detail outcome)) :
    Ends (Stasis.noted component event detail x) Q := by
  refine hx.attempt.bind fun outcome houtcome => (hd outcome).bind_ends fun text => ?_
  cases outcome <;> exact (behaves_note _ _ _ _ _).bind_ends fun _ => houtcome.ends

theorem Steady.noted {heaps : List (Table String Entry)} {x : Run α} (hx : Steady heaps x)
    (component event : String) {detail : Except EngineError α → Run String}
    (hd : ∀ outcome, Steady heaps (detail outcome)) :
    Steady heaps (Stasis.noted component event detail x) := by
  refine hx.attempt.bind fun outcome => (hd outcome).bind fun text => ?_
  cases outcome <;> exact ((behaves_note ..).steady heaps).bind fun _ => steady_ofExcept _

@[grind ←]
theorem Behaves.noted {x : Run α} (hx : Behaves x) (component event : String)
    {detail : Except EngineError α → Run String} (hd : ∀ outcome, Behaves (detail outcome)) :
    Behaves (Stasis.noted component event detail x) :=
  ⟨Ends.noted hx.ends component event hd, fun heaps =>
    Steady.noted (hx.steady heaps) component event fun outcome => (hd outcome).steady heaps⟩

theorem Ends.nested {x : Run α} (hx : Ends x fun _ => True) :
    Ends (Stasis.nested x) fun _ => True := by
  have hmodify : ∀ f : ℕ → ℕ, Ends (modify fun r : Realm => { r with depth := f r.depth })
      fun _ => True := fun _ => ends_modify (fun _ => rfl) fun _ => rfl
  have hrest : Ends (do
      modify fun r : Realm => { r with depth := r.depth + 1 }
      let outcome ← Stasis.attempt x
      modify fun r : Realm => { r with depth := r.depth - 1 }
      ofExcept outcome) fun _ => True :=
    (hmodify (· + 1)).bind fun _ _ => (Ends.attempt hx).bind fun _ houtcome =>
      (hmodify (· - 1)).bind fun _ _ => houtcome.ends
  refine behaves_get.bind_ends fun r => behaves_get.bind_ends fun r' => ?_
  dsimp only
  split
  · exact Behaves.bind_ends (behaves_raise rfl) fun _ => hrest
  · exact hrest

@[grind ←]
theorem Behaves.nested {x : Run α} (hx : Behaves x) : Behaves (Stasis.nested x) :=
  (Ends.nested hx.ends).behaves fun heaps => (hx.steady heaps).nested

theorem Behaves.iterate {action : σ → Run (σ ⊕ α)} (h : ∀ s, Behaves (action s)) (n : ℕ) :
    ∀ s, Behaves (Stasis.iterate action n s) := by
  induction n with
  | zero => exact fun s => behaves_outOfFuel
  | succ n ih =>
    intro s
    refine (h s).bind fun next => ?_
    cases next with
    | inl s => exact ih s
    | inr a => exact Behaves.pure a

@[grind ←]
theorem behaves_mapM {f : α → Run β} (h : ∀ a, Behaves (f a)) (l : List α) :
    Behaves (l.mapM f) := by
  induction l with
  | nil => exact Behaves.pure _
  | cons a l ih =>
    rw [List.mapM_cons]
    exact (h a).bind fun b => ih.bind fun bs => Behaves.pure _

@[grind ←]
theorem behaves_forIn {f : α → σ → Run (ForInStep σ)} (h : ∀ a s, Behaves (f a s)) (l : List α) :
    ∀ s, Behaves (forIn l s f) := by
  induction l with
  | nil => exact fun s => Behaves.pure _
  | cons a l ih =>
    intro s
    rw [List.forIn_cons]
    refine (h a s).bind fun next => ?_
    cases next with
    | done s => exact Behaves.pure s
    | yield s => exact ih s

@[grind ←]
theorem behaves_forM {f : α → Run PUnit} (h : ∀ a, Behaves (f a)) (l : List α) :
    Behaves (l.forM f) := by
  induction l with
  | nil => exact Behaves.pure _
  | cons a l ih => exact (h a).bind fun _ => ih

end Stasis
