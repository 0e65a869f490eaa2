import Mathlib
import Stasis.Proofs.Behaves.Engine

/-!
# Open sessions and the tables that wait for them

Sessions are places on a stack. When a session ends, its place is free for the next one; the tables of
captured names that were made during it live on, with functions that scripts have kept. All that a
table knows of its session is the place.

* `since`: the moment since which something has been true.
* `Apart`: a table that waits for a session was made during the one that is open at this place now.
* `Apart.step`, `Apart.proceeds`: every step keeps that, and so does all that goes on by steps.
* `Operation`, `drive`: what a realm can be asked for from outside, one thing after another.
* `sessions_apart`: whatever a realm is asked for, its tables keep apart from sessions of others.
-/

namespace Stasis

variable {r r' : Realm} {past : List Realm}

/-! ## Since when -/

/-- The number of the moment since which something has been true without a break. Moments are counted
from the beginning of a history, in which the latest moment comes first; what is not true now is put
down for the moment after. -/
def since (p : Realm → Prop) [DecidablePred p] : List Realm → ℕ
  | [] => 0
  | r :: past => if p r then since p past else past.length + 1

section Since

variable {p : Realm → Prop} [DecidablePred p]

theorem since_of_pos (h : p r) : since p (r :: past) = since p past := if_pos h

theorem since_of_neg (h : ¬ p r) : since p (r :: past) = past.length + 1 := if_neg h

theorem since_le_length (h : List Realm) : since p h ≤ h.length := by
  induction h with
  | nil => exact le_rfl
  | cons r past ih =>
    by_cases hr : p r
    · rw [since_of_pos hr]
      exact ih.trans (Nat.le_succ _)
    · rw [since_of_neg hr]
      exact le_rfl

end Since

/-! ## Tables and sessions -/

/-- The table is younger than the session that is at the place now. -/
def MadeDuring (i : SessionId) (id : TableId) (history : List Realm) : Prop :=
  since (fun r => i < r.sessions.size) history < since (fun r => id < r.scopes.size) history

instance (i : SessionId) (id : TableId) (history : List Realm) :
    Decidable (MadeDuring i id history) :=
  inferInstanceAs (Decidable (_ < _))

/-- At the latest moment, every table that waits for a session was made during the session that is
open at this place, and is one of a function of the envelope that is being read there. -/
def Apart : List Realm → Prop
  | [] => True
  | r :: past => ∀ (id : TableId) (t : ScopeTable) (i : SessionId), r.scopes[id]? = some t →
    t.session = some i →
    MadeDuring i id (r :: past) ∧ ∃ entries, r.heaps[i]? = some entries ∧ t.IsOf entries

/-- What has been open all along has not been opened again. -/
theorem MadeDuring.next {i : SessionId} {id : TableId} (h : MadeDuring i id (r :: past))
    (hi : i < r'.sessions.size) (hid : id < r'.scopes.size) : MadeDuring i id (r' :: r :: past) := by
  unfold MadeDuring
  rw [since_of_pos (p := fun r => i < r.sessions.size) hi,
    since_of_pos (p := fun r => id < r.scopes.size) hid]
  exact h

/-- A table that is new was made during every session that was open already. -/
theorem madeDuring_new {i : SessionId} {id : TableId} (hi : i < r.sessions.size)
    (hi' : i < r'.sessions.size) (hid : r.scopes.size ≤ id) (hid' : id < r'.scopes.size) :
    MadeDuring i id (r' :: r :: past) := by
  have hsession : since (fun r => i < r.sessions.size) (r' :: r :: past) =
      since (fun r => i < r.sessions.size) past := (since_of_pos hi').trans (since_of_pos hi)
  have htable : since (fun r => id < r.scopes.size) (r' :: r :: past) = past.length + 1 :=
    (since_of_pos hid').trans (since_of_neg hid.not_gt)
  unfold MadeDuring
  rw [hsession, htable]
  exact Nat.lt_succ_of_le (since_le_length past)

/-- A session that takes the place of an earlier one. -/
example :
    let opened : Realm := { knotRealm with sessions := #[{ entries := {} }] }
    let made : Realm := { opened with scopes := #[{}] }
    let closed : Realm := { made with sessions := #[] }
    let openedAgain : Realm := { closed with sessions := #[{ entries := {} }] }
    MadeDuring 0 0 [made, opened, knotRealm] ∧
      ¬ MadeDuring 0 0 [openedAgain, closed, made, opened, knotRealm] := by
  decide

theorem lt_of_heaps {i : SessionId} {entries : Table String Entry} (h : r.heaps[i]? = some entries) :
    i < r.sessions.size := by
  rw [← r.length_heaps]
  exact (List.getElem?_eq_some_iff.mp h).1

/-- What has no value yet in the one table has none in the other. -/
def ScopeTable.PendingIn (t t' : ScopeTable) : Prop :=
  ∀ name value, t.entries.find? name = some (.pending value) →
    t'.entries.find? name = some (.pending value)

theorem ScopeTable.PendingIn.refl (t : ScopeTable) : t.PendingIn t := fun _ _ h => h

theorem ScopeTable.settle_pendingIn (t : ScopeTable) (name : String) (v : Value) :
    (t.settle name v).PendingIn t := by
  intro name' value h
  rw [settle, Table.find?_insert] at h
  split at h
  · cases h
  · exact h

theorem ScopeTable.IsOf.mono {t t' : ScopeTable} {entries : Table String Entry} (h : t.IsOf entries)
    (ht : t'.PendingIn t) : t'.IsOf entries := by
  obtain ⟨reference, e, type, captures, text, he, hp, hpending⟩ := h
  exact ⟨reference, e, type, captures, text, he, hp, fun name value hv =>
    hpending name value (ht name value hv)⟩

/-! ## One step -/

/-- No table waits for more than before, and what the tables wait for is still being read. -/
theorem Apart.next (h : Apart (r :: past))
    (hnext : ∀ (j : TableId) (t' : ScopeTable) (i : SessionId), r'.scopes[j]? = some t' →
      t'.session = some i → ∃ t : ScopeTable, r.scopes[j]? = some t ∧ t.session = some i ∧
        t'.PendingIn t ∧ ∀ entries, r.heaps[i]? = some entries → r'.heaps[i]? = some entries) :
    Apart (r' :: r :: past) := by
  intro j t' i ht' hi
  obtain ⟨t, ht, hti, hpending, hheaps⟩ := hnext j t' i ht' hi
  obtain ⟨hmade, entries, hentries, hof⟩ := h j t i ht hti
  have hopen := hheaps entries hentries
  have hj : j < r'.scopes.size := (Array.getElem?_eq_some_iff.mp ht').1
  exact ⟨hmade.next (lt_of_heaps hopen) hj, entries, hopen, hof.mono hpending⟩

/-- Tables are left alone. -/
theorem Apart.of_scopes (h : Apart (r :: past)) (hscopes : r'.scopes = r.scopes)
    (hheaps : r.heaps <+: r'.heaps) : Apart (r' :: r :: past) := by
  refine h.next fun j t i ht hi => ?_
  rw [hscopes] at ht
  exact ⟨t, ht, hi, .refl t, fun entries => getElem?_of_prefix hheaps⟩

/-- A new table is one of an open session. -/
theorem Apart.scope {t : ScopeTable} (h : Apart (r :: past))
    (ht : ∀ i, t.session = some i → ∃ entries, r.heaps[i]? = some entries ∧ t.IsOf entries) :
    Apart ({ r with scopes := r.scopes.push t } :: r :: past) := by
  intro j t' i ht' hi
  have hj : j < (r.scopes.push t).size := (Array.getElem?_eq_some_iff.mp ht').1
  rw [Array.getElem?_push] at ht'
  split at ht'
  · next hnew =>
    obtain rfl : t = t' := Option.some.inj ht'
    obtain ⟨entries, hentries, hof⟩ := ht i hi
    have hopen := lt_of_heaps hentries
    exact ⟨madeDuring_new hopen hopen hnew.ge hj, entries, hentries, hof⟩
  · obtain ⟨hmade, entries, hentries, hof⟩ := h j t' i ht' hi
    exact ⟨hmade.next (lt_of_heaps hentries) hj, entries, hentries, hof⟩

/-- A table gets values, or stops waiting. -/
theorem Apart.modify (h : Apart (r :: past)) (id : TableId) {f : ScopeTable → ScopeTable}
    (hf : ∀ t, (f t).PendingIn t ∧ ∀ i, (f t).session = some i → t.session = some i) :
    Apart ({ r with scopes := r.scopes.modify id f } :: r :: past) := by
  refine h.next fun j t' i ht' hi => ?_
  rw [Array.getElem?_modify] at ht'
  split at ht'
  · obtain ⟨t, ht, rfl⟩ := Option.map_eq_some_iff.mp ht'
    exact ⟨t, ht, (hf t).2 i hi, (hf t).1, fun _ hentries => hentries⟩
  · exact ⟨t', ht', hi, .refl t', fun _ hentries => hentries⟩

/-- The place of a session that ends is one that no table waits for. -/
theorem Apart.closed {i : SessionId} (h : Apart (r :: past)) (hsize : r.sessions.size = i + 1) :
    Apart ({ r with
      sessions := r.sessions.take i
      scopes := r.scopes.map fun t =>
        if t.session == some i then { t with session := none } else t } :: r :: past) := by
  refine h.next fun j t' i' ht' hi' => ?_
  obtain ⟨t, ht, rfl⟩ := Option.map_eq_some_iff.mp (Array.getElem?_map ▸ ht')
  by_cases hclosed : t.session = some i
  · rw [if_pos (beq_iff_eq.mpr hclosed)] at hi'
    cases hi'
  · rw [if_neg (fun hi => hclosed (beq_iff_eq.mp hi))] at hi' ⊢
    refine ⟨t, ht, hi', .refl t, fun entries hentries => ?_⟩
    -- sessions that go on are below the one that ends
    have hlt : i' < i := by
      have hopen : i' < i + 1 := hsize ▸ lt_of_heaps hentries
      exact Nat.lt_of_le_of_ne (Nat.le_of_lt_succ hopen) fun he => hclosed (he ▸ hi')
    simpa [Realm.heaps, hlt] using hentries

theorem Apart.change (h : Apart (r :: past)) (hchange : r.Change r') : Apart (r' :: r :: past) := by
  cases hchange with
  | scope ht => exact h.scope ht
  | settled id name v => exact h.modify id fun t => ⟨t.settle_pendingIn name v, fun _ hi => hi⟩
  | left id => exact h.modify id fun t => ⟨.refl t, fun _ => nofun⟩
  | session id hf => exact h.of_scopes rfl (Realm.heaps_modify hf id ▸ List.prefix_rfl)
  | _ => exact h.of_scopes rfl List.prefix_rfl

/-- **Every step keeps tables apart from sessions of others.** -/
theorem Apart.step (h : Apart (r :: past)) (hstep : r.Step r') : Apart (r' :: r :: past) := by
  cases hstep with
  | change hchange => exact h.change hchange
  | opened entries => exact h.of_scopes rfl (by simp [Realm.heaps])
  | closed hsize => exact h.closed hsize
  | _ => exact h.of_scopes rfl List.prefix_rfl

/-- **Every history that goes on by steps keeps them apart, at every moment.** -/
theorem Apart.proceeds {heaps : List (Table String Entry)} {h h' : List Realm}
    (hproceeds : Proceeds heaps h h') (hh : ∀ past, past <:+ h → Apart past) :
    ∀ past, past <:+ h' → Apart past := by
  refine hproceeds.keeps (P := fun h => ∀ past, past <:+ h → Apart past) ?_ hh
  intro r r' past hp hstep now hnow
  rcases List.suffix_cons_iff.mp hnow with rfl | hbefore
  · exact (hp _ List.suffix_rfl).step hstep
  · exact hp now hbefore

/-! ## What a realm is asked for -/

/-- What can be asked of a realm from outside, with the type of the answer. -/
inductive Operation : Type → Type 1 where
  | request {α : Type} (request : Request α) : Operation α
  | evalScript (source : String) : Operation Value
  | evalInstrumented (source : String) : Operation Value
  | getNamed (v : Value) (name : String) : Operation Value
  | getGlobal (name : String) : Operation Value
  | setGlobal (name : String) (v : Value) : Operation Unit
  | serialize (v : Value) (options : SuspendOptions) : Operation Envelope
  | deserialize (e : Envelope) : Operation Value
  | ensureSerializable (v : Value) : Operation Value
  | registerHostRoot (v : Value) (path : String) : Operation ℕ
  | addType (type : ObjectType) : Operation Unit
  | drainEvents : Operation Unit

/-- Does what is asked for. -/
def Operation.perform [Machine] {α : Type} : Operation α → Run α
  | request q => Machine.run q
  | evalScript source => Stasis.evalScript source
  | evalInstrumented source => Stasis.evalInstrumented source
  | getNamed v name => Stasis.getNamed v name
  | getGlobal name => Stasis.getGlobal name
  | setGlobal name v => Stasis.setGlobal name v
  | serialize v options => Stasis.serialize v options
  | deserialize e => Stasis.deserialize e
  | ensureSerializable v => Stasis.ensureSerializable v
  | registerHostRoot v path => Stasis.registerHostRoot v path
  | addType type => modify fun r => { r with objectTypes := r.objectTypes ++ [type] }
  | drainEvents => modify fun r => { r with events := r.events.drain.2 }

/-- One operation after another, each with a bound on the depth of its work. One that fails does not
keep the next ones from being asked for. -/
def drive : List (ℕ × (α : Type) × Operation α) → Run Unit
  | [] => return ()
  | (depth, ⟨_, operation⟩) :: rest => do
    let _ ← attempt (@Operation.perform (engine depth) _ operation)
    drive rest

/-- **Whatever is asked for is done by steps**, and closes the sessions that it opens. -/
theorem steady_perform (depth : ℕ) {α : Type} (operation : Operation α)
    (heaps : List (Table String Entry)) :
    Steady heaps (@Operation.perform (engine depth) _ operation) := by
  let _ := engine depth
  cases operation with
  | request q => exact (SafeMachine.behaves q).steady heaps
  | evalScript source => exact (behaves_evalScript source).steady heaps
  | evalInstrumented source => exact (behaves_evalInstrumented source).steady heaps
  | getNamed v name => exact (behaves_getNamed v name).steady heaps
  | getGlobal name => exact (behaves_getGlobal name).steady heaps
  | setGlobal name v => exact (behaves_setGlobal name v).steady heaps
  | serialize v options => exact steady_serialize v options heaps
  | deserialize e => exact (behaves_deserialize e).steady heaps
  | ensureSerializable v => exact (behaves_ensureSerializable v).steady heaps
  | registerHostRoot v path => exact (behaves_registerHostRoot v path).steady heaps
  | addType type =>
    exact fun r past hr => ⟨_, _, _, .modify past (.objectType type) hr, fun _ => ⟨rfl, rfl⟩⟩
  | drainEvents => exact steady_modifyGet fun r _ => .inr .drained

theorem steady_drive (operations : List (ℕ × (α : Type) × Operation α))
    (heaps : List (Table String Entry)) : Steady heaps (drive operations) := by
  induction operations with
  | nil => exact Steady.pure ()
  | cons first rest ih =>
    obtain ⟨depth, α, operation⟩ := first
    exact (steady_perform depth operation heaps).attempt.bind fun _ => ih

theorem scopes_fresh (config : Config) : (Realm.fresh config).scopes = #[] := by
  unfold Realm.fresh
  split
  split
  rfl

/-- **No table waits for the session of another.** Take a new realm, and any operations that are asked
of it one after another; scripts run in them as they please, envelopes may say anything, and what fails
may be caught. From each moment of that to the next there is one step. At every moment, a table that
waits for a session was made during the one that is open at this place then; and what the table has no
value for is what a function of the envelope that is being read there has captured.

Whatever is asked for, in whatever realm, reading any envelope included, is done by steps as well, and
the sessions that were open before are open all along. Unless it is never done, no others are open
afterwards, be it that it has succeeded or that it has failed. -/
theorem sessions_apart (config : Config) (operations : List (ℕ × (α : Type) × Operation α)) :
    ((Realm.fresh config).moments (drive operations)).IsChain (fun later earlier => earlier.Step later) ∧
    (∀ past, past <:+ (Realm.fresh config).moments (drive operations) → Apart past) ∧
    ∀ (depth : ℕ) (α : Type) (operation : Operation α) (r : Realm), ∃ out r',
      r.run (@Operation.perform (engine depth) _ operation) = (out, r') ∧
      (r.moments (@Operation.perform (engine depth) _ operation)).head? = some r' ∧
      (r.moments (@Operation.perform (engine depth) _ operation)).IsChain
        (fun later earlier => earlier.Step later) ∧
      (∀ moment ∈ r.moments (@Operation.perform (engine depth) _ operation),
        r.heaps <+: moment.heaps) ∧
      (out = .error .outOfFuel ∨ r'.sessions.size = r.sessions.size) := by
  have hdriven := (steady_drive operations []).moments (r := Realm.fresh config) List.nil_prefix
  refine ⟨hdriven.2.isChain (.singleton _), Apart.proceeds hdriven.2 ?_,
    fun depth α operation r => ?_⟩
  · intro past hpast
    rcases List.suffix_cons_iff.mp hpast with rfl | hnone
    · intro j t i ht
      rw [scopes_fresh] at ht
      cases ht
    · rw [List.suffix_nil.mp hnone]
      trivial
  · have hsteady := steady_perform depth operation r.heaps
    obtain ⟨hlast, hproceeds⟩ := hsteady.moments List.prefix_rfl
    obtain ⟨out, r', later, hpass, hframe⟩ := hsteady r [] List.prefix_rfl
    obtain ⟨_, ⟨⟩, hrun⟩ := hpass.run_eq rfl
    rw [hrun] at hlast
    refine ⟨out, r', hrun, hlast, hproceeds.isChain (.singleton _),
      hproceeds.heaps (List.forall_mem_singleton.mpr List.prefix_rfl), ?_⟩
    by_cases hfuel : out = .error .outOfFuel
    · exact .inl hfuel
    · exact .inr (hframe hfuel).size_sessions

/-- A closure that a script suspends, resumes and calls, after an envelope that holds nothing. -/
def resumedClosure : List (ℕ × (α : Type) × Operation α) :=
  [(8, ⟨_, .deserialize { root := .undefined, entries := {} }⟩),
   (64, ⟨_, .evalInstrumented ("let n = 1; function f() \x7b return n; \x7d " ++
      "__SerializableJs.deserialize(__SerializableJs.serialize(f))()")⟩)]

theorem sessions_apart_resumedClosure : Apart ((Realm.fresh {}).moments (drive resumedClosure)) :=
  (sessions_apart {} resumedClosure).2.1 _ List.suffix_rfl

end Stasis
