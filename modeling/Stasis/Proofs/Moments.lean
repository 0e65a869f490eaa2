import Mathlib
import Stasis.Proofs.Run

/-!
# The moments of a run

An action changes its realm time and again, and its record holds what the realm has been. The realm at
the beginning and after each change is a moment of the action. A history lists moments, the latest one
first.

* `Realm.Change`, `Realm.Step`: one change of a realm, and one step of a run.
* `Realm.moments`: the moments of an action, with `Realm.history` for those after the beginning.
* `Realm.history_bind`, `Realm.history_attempt`: the history of actions made of actions.
* `Passes`: what an action does to a history that goes on by steps.
* `Passes.keeps`: what every step keeps is true at every moment.
* `Steady`: an action that goes by steps and closes all that it has opened.
* `Steady.bind`, `Steady.attempt`, `Steady.between`, `Steady.nested`: actions made of actions.
* `Steady.moments`: such an action goes by steps from the beginning to what it leaves.
-/

namespace Stasis

variable {α β : Type} {r r' : Realm}

/-! ## Steps -/

/-- The names that have no value yet are names that one function of the envelope has captured. -/
def ScopeTable.IsOf (t : ScopeTable) (entries : Table String Entry) : Prop :=
  ∃ reference entry type captures text, entries.find? reference = some entry ∧
    Payload.ofJson? type entry.payload = some (.source captures text) ∧
    ∀ name value, t.entries.find? name = some (.pending value) → (name, value) ∈ captures

/-- The table with a name that has got its value. -/
def ScopeTable.settle (t : ScopeTable) (name : String) (v : Value) : ScopeTable :=
  { t with entries := t.entries.insert name (.resolved v) }

/-- The table without a session. -/
def ScopeTable.leave (t : ScopeTable) : ScopeTable := { t with session := none }

namespace Realm

/-- The entries of the envelopes that are being read, those of the outermost session first. -/
def heaps (r : Realm) : List (Table String Entry) := r.sessions.toList.map Session.entries

/-- One change of a realm in which nothing begins and nothing ends. -/
inductive Change (r : Realm) : Realm → Prop
  | store (store : Store) : Change r { r with store }
  | symbol (description : Option String) :
    Change r { r with symbols := (r.symbols.create description).2 }
  | sharedSymbol (key : String) : Change r { r with symbols := (r.symbols.shared key).2 }
  | environment (e : Environment) :
    Change r { r with environments := (r.environments.add e).2 }
  | changedEnvironment (id : EnvId) (f : Environment → Environment) :
    Change r { r with environments := r.environments.modify id f }
  | objectReference (id : ObjectId) :
    Change r { r with references := (r.references.ofObject id).2 }
  | symbolReference (id : SymbolId) :
    Change r { r with references := (r.references.ofSymbol id).2 }
  | resumedSymbol {reference : String} (description : Option String)
    (h : r.references.symbol? reference = none) :
    Change r { r with
      symbols := (r.symbols.create description).2
      references := r.references.bindSymbol reference (r.symbols.create description).1 }
  | function (id : ObjectId) (record : Registration) :
    Change r { r with registry := (r.registry.register id record).1 }
  | classPrototype (prototype class_ : ObjectId) :
    Change r { r with registry := r.registry.registerPrototype prototype class_ }
  | path (id : ObjectId) (path : String) :
    Change r { r with hostPaths := (r.hostPaths.record id path).1 }
  | event (component event outcome errorCode detail : String) :
    Change r { r with events := r.events.push component event outcome errorCode detail }
  | drained : Change r { r with events := r.events.drain.2 }
  | line (text : String) : Change r { r with console := r.console.push text }
  /-- A table of an open session is that of a function of its envelope. -/
  | scope {t : ScopeTable} (h : ∀ i, t.session = some i → ∃ entries, r.heaps[i]? = some entries ∧
      t.IsOf entries) : Change r { r with scopes := r.scopes.push t }
  | settled (id : TableId) (name : String) (v : Value) :
    Change r { r with scopes := r.scopes.modify id fun t => t.settle name v }
  | left (id : TableId) : Change r { r with scopes := r.scopes.modify id ScopeTable.leave }
  /-- A session gets on with its envelope. -/
  | session (id : SessionId) {f : Session → Session} (h : ∀ s, (f s).entries = s.entries) :
    Change r { r with sessions := r.sessions.modify id f }

/-- One step of a run. -/
inductive Step (r : Realm) : Realm → Prop
  | change {r' : Realm} (h : r.Change r') : Step r r'
  | objectType (type : ObjectType) : Step r { r with objectTypes := r.objectTypes ++ [type] }
  /-- A call begins. -/
  | called (h : r.depth < r.config.maxCallDepth) : Step r { r with depth := r.depth + 1 }
  /-- The innermost call ends. -/
  | returned {depth : Nat} (h : r.depth = depth + 1) : Step r { r with depth }
  /-- A session begins. -/
  | opened (entries : Table String Entry) :
    Step r { r with sessions := r.sessions.push { entries } }
  /-- The innermost session ends, and no table asks for it any more. -/
  | closed {i : SessionId} (h : r.sessions.size = i + 1) :
    Step r { r with
      sessions := r.sessions.take i
      scopes := r.scopes.map fun t =>
        if t.session == some i then { t with session := none } else t }

/-- The same envelopes are being read, and the same number of calls is running. -/
structure SameFrame (r r' : Realm) : Prop where
  heaps : r'.heaps = r.heaps
  depth : r'.depth = r.depth

theorem SameFrame.refl (r : Realm) : r.SameFrame r := ⟨rfl, rfl⟩

theorem SameFrame.trans {r'' : Realm} (h : r.SameFrame r') (h' : r'.SameFrame r'') :
    r.SameFrame r'' :=
  ⟨h'.heaps.trans h.heaps, h'.depth.trans h.depth⟩

theorem length_heaps (r : Realm) : r.heaps.length = r.sessions.size := by simp [heaps]

theorem SameFrame.size_sessions (h : r.SameFrame r') : r'.sessions.size = r.sessions.size := by
  rw [← length_heaps, ← length_heaps, h.heaps]

theorem heaps_modify {f : Session → Session} (h : ∀ s, (f s).entries = s.entries) (id : SessionId) :
    { r with sessions := r.sessions.modify id f }.heaps = r.heaps := by
  refine List.ext_getElem? fun i => ?_
  simp only [heaps, List.getElem?_map, Array.getElem?_toList, Array.getElem?_modify]
  split
  · cases r.sessions[i]? with
    | none => rfl
    | some s => simp [h]
  · rfl

theorem Change.sameFrame (h : r.Change r') : r.SameFrame r' := by
  cases h with
  | session id h => exact ⟨heaps_modify h id, rfl⟩
  | _ => exact ⟨rfl, rfl⟩

theorem Change.objectTypes_eq (h : r.Change r') : r'.objectTypes = r.objectTypes := by
  cases h <;> rfl

end Realm

/-! ## Moments -/

namespace Realm

/-- What the realm is after each change that an action makes of it, the latest first. -/
noncomputable def history (r : Realm) (x : Run α) : List Realm := (ExceptT.run x).record r

/-- **The moments of an action** that is begun in the realm: the realm at the beginning, and after each
change. The latest comes first. -/
noncomputable def moments (r : Realm) (x : Run α) : List Realm := r.history x ++ [r]

theorem history_pure (a : α) (r : Realm) : r.history (pure a) = [] := Recorded.record_pure _ r

theorem history_throw (fault : Fault) (r : Realm) : r.history (throw fault : Run α) = [] :=
  Recorded.record_pure _ r

theorem history_get (r : Realm) : r.history get = [] := by
  show (Except.ok <$> (get : Recorded Realm Realm)).record r = []
  rw [map_eq_pure_bind, Recorded.record_bind, Recorded.record_pure, Recorded.record_get]
  rfl

theorem history_modifyGet (f : Realm → α × Realm) (r : Realm) :
    r.history (modifyGet f) = [(f r).2] := by
  show (Except.ok <$> (modifyGet f : Recorded Realm α)).record r = _
  rw [map_eq_pure_bind, Recorded.record_bind, Recorded.record_pure, Recorded.record_modifyGet]
  rfl

theorem history_modify (f : Realm → Realm) (r : Realm) : r.history (modify f) = [f r] :=
  history_modifyGet (fun r => ((), f r)) r

theorem history_bind (x : Run α) (f : α → Run β) (r : Realm) :
    r.history (x >>= f) = (match r.run x with
      | (.ok a, r') => r'.history (f a)
      | (.error _, _) => []) ++ r.history x := by
  unfold history Realm.run
  rw [ExceptT.run_bind, Recorded.record_bind]
  rcases x.run.erase.run r with ⟨_ | _, _⟩
  · rw [Recorded.record_pure]
  · rfl

theorem history_tryCatch (x : Run α) (handle : Fault → Run α) (r : Realm) :
    r.history (tryCatch x handle) = (match r.run x with
      | (.ok _, _) => []
      | (.error e, r') => r'.history (handle e)) ++ r.history x := by
  unfold history Realm.run
  rw [ExceptT.run_tryCatch, Recorded.record_bind]
  rcases x.run.erase.run r with ⟨_ | _, _⟩
  · rfl
  · rw [Recorded.record_pure]

/-- What fails on the way has been a part of the way. -/
theorem history_attempt (x : Run α) (r : Realm) : r.history (attempt x) = r.history x := by
  have hok : r.history (x >>= fun a => pure (Except.ok a : Except EngineError α)) = r.history x := by
    rw [history_bind]
    rcases r.run x with ⟨_ | _, r'⟩
    · rfl
    · exact congrArg (· ++ r.history x) (history_pure _ r')
  unfold attempt
  rw [history_tryCatch, hok]
  generalize r.run (x >>= fun a => pure (Except.ok a : Except EngineError α)) = ended
  rcases ended with ⟨(cause | _) | _, r'⟩
  · exact congrArg (· ++ r.history x) (history_pure _ r')
  · exact congrArg (· ++ r.history x) (history_throw _ r')
  · rfl

end Realm

theorem Yields.history_bind {x : Run α} {a : α} (hx : Yields x r a r') (f : α → Run β) :
    r.history (x >>= f) = r'.history (f a) ++ r.history x := by
  rw [Realm.history_bind, hx]

/-- A history that goes on by steps, while the envelopes `heaps` are being read at every moment that is
added. -/
inductive Proceeds (heaps : List (Table String Entry)) (h : List Realm) : List Realm → Prop
  | refl : Proceeds heaps h h
  | step {r r' : Realm} {past : List Realm} (hpast : Proceeds heaps h (r :: past)) (hstep : r.Step r')
    (hr : heaps <+: r'.heaps) : Proceeds heaps h (r' :: r :: past)

/-- What every step keeps is true of the history that has gone on. -/
theorem Proceeds.keeps {heaps : List (Table String Entry)} {h h' : List Realm} {P : List Realm → Prop}
    (hstep : ∀ {r r' : Realm} {past : List Realm}, P (r :: past) → r.Step r' → P (r' :: r :: past))
    (hh : Proceeds heaps h h') (hp : P h) : P h' := by
  induction hh with
  | refl => exact hp
  | step _ hnext _ ih => exact hstep ih hnext

theorem Proceeds.trans {heaps : List (Table String Entry)} {h h' h'' : List Realm}
    (hfirst : Proceeds heaps h h') (hmore : Proceeds heaps h' h'') : Proceeds heaps h h'' := by
  induction hmore with
  | refl => exact hfirst
  | step _ hstep hr ih => exact ih.step hstep hr

/-- From each moment to the next there is one step. -/
theorem Proceeds.isChain {heaps : List (Table String Entry)} {h h' : List Realm}
    (hh : Proceeds heaps h h') (hbegin : h.IsChain fun later earlier => earlier.Step later) :
    h'.IsChain fun later earlier => earlier.Step later :=
  hh.keeps (fun hpast hstep => .cons_cons hstep hpast) hbegin

/-- The envelopes are being read at every moment. -/
theorem Proceeds.heaps {heaps : List (Table String Entry)} {h h' : List Realm}
    (hh : Proceeds heaps h h') (hbegin : ∀ moment ∈ h, heaps <+: moment.heaps) :
    ∀ moment ∈ h', heaps <+: moment.heaps := by
  induction hh with
  | refl => exact hbegin
  | step _ _ hr ih => exact List.forall_mem_cons.mpr ⟨hr, ih⟩

theorem Proceeds.mono {heaps heaps' : List (Table String Entry)} {h h' : List Realm}
    (hheaps : heaps' <+: heaps) (hh : Proceeds heaps h h') : Proceeds heaps' h h' := by
  induction hh with
  | refl => exact .refl
  | step _ hstep hr ih => exact ih.step hstep (hheaps.trans hr)

/-- What an action does to a history: `Passes heaps x h out h'` says that `x`, begun at the latest moment
of the history `h`, comes to `out`, that `h'` is the history then, and that it has gone on by steps, with
the envelopes `heaps` being read all along. -/
structure Passes (heaps : List (Table String Entry)) {α : Type} (x : Run α) (h : List Realm)
    (out : Except Fault α) (h' : List Realm) : Prop where
  run : ∀ r ∈ h.head?, ∃ r' ∈ h'.head?, r.run x = (out, r')
  history : ∀ r ∈ h.head?, h' = r.history x ++ h
  proceeds : Proceeds heaps h h'

namespace Passes

variable {heaps heaps' : List (Table String Entry)} {x : Run α} {f : α → Run β} {a : α}
  {h h' h'' past later : List Realm} {out : Except Fault α} {out' : Except Fault β} {fault : Fault}
  {cause : EngineError}

theorem pure (a : α) (h : List Realm) : Passes heaps (Pure.pure a) h (.ok a) h where
  run r hr := ⟨r, hr, rfl⟩
  history r _ := by rw [Realm.history_pure, List.nil_append]
  proceeds := .refl

theorem throw (fault : Fault) (h : List Realm) :
    Passes heaps (throw fault : Run α) h (.error fault) h where
  run r hr := ⟨r, hr, rfl⟩
  history r _ := by rw [Realm.history_throw, List.nil_append]
  proceeds := .refl

theorem get (r : Realm) (past : List Realm) :
    Passes heaps (get : Run Realm) (r :: past) (.ok r) (r :: past) where
  run := by
    rintro _ ⟨⟩
    exact ⟨r, rfl, rfl⟩
  history := by
    rintro _ ⟨⟩
    rw [Realm.history_get, List.nil_append]
  proceeds := .refl

theorem step {f : Realm → α × Realm} (past : List Realm) (hf : r.Step (f r).2)
    (hr : heaps <+: (f r).2.heaps) :
    Passes heaps (modifyGet f) (r :: past) (.ok (f r).1) ((f r).2 :: r :: past) where
  run := by
    rintro _ ⟨⟩
    exact ⟨_, rfl, rfl⟩
  history := by
    rintro _ ⟨⟩
    rw [Realm.history_modifyGet]
    rfl
  proceeds := .step .refl hf hr

/-- A step, told by what it makes of the realm. -/
theorem modify {f : Realm → Realm} (past : List Realm) (hf : r.Step (f r))
    (hr : heaps <+: (f r).heaps) : Passes heaps (modify f) (r :: past) (.ok ()) (f r :: r :: past) :=
  step (f := fun r => ((), f r)) past hf hr

theorem bind (hx : Passes heaps x h (.ok a) h') (hf : Passes heaps (f a) h' out' h'') :
    Passes heaps (x >>= f) h out' h'' where
  run r hr := by
    obtain ⟨r', hr', hrun⟩ := hx.run r hr
    rw [run_bind, hrun]
    exact hf.run r' hr'
  history r hr := by
    obtain ⟨r', hr', hrun⟩ := hx.run r hr
    rw [Realm.history_bind, hrun, List.append_assoc, ← hx.history r hr]
    exact hf.history r' hr'
  proceeds := hx.proceeds.trans hf.proceeds

theorem bind_error (hx : Passes heaps x h (.error fault) h') (f : α → Run β) :
    Passes heaps (x >>= f) h (.error fault) h' where
  run r hr := by
    obtain ⟨r', hr', hrun⟩ := hx.run r hr
    rw [run_bind, hrun]
    exact ⟨r', hr', rfl⟩
  history r hr := by
    obtain ⟨r', -, hrun⟩ := hx.run r hr
    rw [Realm.history_bind, hrun, List.nil_append]
    exact hx.history r hr
  proceeds := hx.proceeds

/-- What is attempted goes on as it does by itself. -/
theorem attempt_of_run {outcome : Except Fault (Except EngineError α)}
    (hx : Passes heaps x h out h')
    (hrun : ∀ r r' : Realm, r.run x = (out, r') → r.run (attempt x) = (outcome, r')) :
    Passes heaps (attempt x) h outcome h' where
  run r hr := by
    obtain ⟨r', hr', hx'⟩ := hx.run r hr
    exact ⟨r', hr', hrun r r' hx'⟩
  history r hr := by
    rw [Realm.history_attempt]
    exact hx.history r hr
  proceeds := hx.proceeds

theorem attempt (hx : Passes heaps x h (.ok a) h') :
    Passes heaps (Stasis.attempt x) h (.ok (.ok a)) h' :=
  hx.attempt_of_run fun r r' hrun => by rw [run_attempt, hrun]

theorem attempt_error (hx : Passes heaps x h (.error (.error cause)) h') :
    Passes heaps (Stasis.attempt x) h (.ok (.error cause)) h' :=
  hx.attempt_of_run fun r r' hrun => by rw [run_attempt, hrun]

theorem attempt_outOfFuel (hx : Passes heaps x h (.error .outOfFuel) h') :
    Passes heaps (Stasis.attempt x) h (.error .outOfFuel) h' :=
  hx.attempt_of_run fun r r' hrun => by rw [run_attempt, hrun]

theorem get_bind {f : Realm → Run α} (hf : Passes heaps (f r) (r :: past) out later) :
    Passes heaps (MonadState.get >>= f) (r :: past) out later :=
  (get r past).bind hf

theorem mono (hheaps : heaps' <+: heaps) (hx : Passes heaps x h out h') : Passes heaps' x h out h' :=
  ⟨hx.run, hx.history, hx.proceeds.mono hheaps⟩

/-- **The run ends as told, in its latest moment.** -/
theorem run_eq (hx : Passes heaps x h out h') {r : Realm} (hr : h.head? = some r) :
    ∃ r', h'.head? = some r' ∧ r.run x = (out, r') :=
  hx.run r hr

/-- The moments are those of the action. -/
theorem moments_eq (hx : Passes heaps x [r] out h') : r.moments x = h' :=
  (hx.history r rfl).symm

/-- **What every step keeps, a run keeps.** -/
theorem keeps {P : List Realm → Prop}
    (hstep : ∀ {r r' : Realm} {past : List Realm}, P (r :: past) → r.Step r' → P (r' :: r :: past))
    (hx : Passes heaps x h out h') (hp : P h) : P h' :=
  hx.proceeds.keeps hstep hp

end Passes

/-! ## Steady actions -/

theorem getElem?_of_prefix {γ : Type} {l l' : List γ} {i : ℕ} {c : γ} (h : l <+: l')
    (hc : l[i]? = some c) : l'[i]? = some c := by
  obtain ⟨hi, rfl⟩ := List.getElem?_eq_some_iff.mp hc
  exact List.prefix_iff_getElem?.mp h i hi

/-- Begun while at least the given envelopes are being read, the action goes by steps, and these
envelopes are being read all along. Unless it runs out of fuel, it closes the sessions and ends the
calls that it has begun, and no others. -/
def Steady (heaps : List (Table String Entry)) (x : Run α) : Prop :=
  ∀ (r : Realm) (past : List Realm), heaps <+: r.heaps → ∃ out r' later,
    Passes heaps x (r :: past) out (r' :: later) ∧ (out ≠ .error .outOfFuel → r.SameFrame r')

section Steady

variable {heaps : List (Table String Entry)} {x : Run α} {f : α → Run β}

theorem Steady.pure (a : α) : Steady heaps (Pure.pure a) :=
  fun r _ _ => ⟨_, _, _, .pure a _, fun _ => .refl r⟩

theorem steady_throw (fault : Fault) : Steady heaps (throw fault : Run α) :=
  fun r _ _ => ⟨_, _, _, .throw fault _, fun _ => .refl r⟩

theorem steady_ofExcept (outcome : Except EngineError α) : Steady heaps (ofExcept outcome) := by
  cases outcome with
  | ok a => exact Steady.pure a
  | error cause => exact steady_throw _

theorem Steady.bind (hx : Steady heaps x) (hf : ∀ a, Steady heaps (f a)) :
    Steady heaps (x >>= f) := by
  intro r past hr
  obtain ⟨out, r', later, hpass, hframe⟩ := hx r past hr
  cases out with
  | error fault => exact ⟨_, _, _, hpass.bind_error f, fun hne => hframe (by simpa using hne)⟩
  | ok a =>
    have hframe' := hframe nofun
    have hr' : heaps <+: r'.heaps := by rwa [hframe'.heaps]
    obtain ⟨out', r'', later', hpass', hframe''⟩ := hf a r' later hr'
    exact ⟨_, _, _, hpass.bind hpass', fun hne => hframe'.trans (hframe'' hne)⟩

/-- An action that comes first in one case only. -/
theorem Steady.guard {c : Prop} [Decidable c] {x : Run Unit} {rest : Unit → Run α}
    (hx : Steady heaps x) (hrest : ∀ u, Steady heaps (rest u)) :
    Steady heaps (if c then x >>= rest else rest ()) := by
  split
  · exact hx.bind hrest
  · exact hrest ()

theorem steady_get : Steady heaps (get : Run Realm) :=
  fun r past _ => ⟨_, _, _, .get r past, fun _ => .refl r⟩

/-- An action that begins with a look at the realm. -/
theorem steady_get_bind {f : Realm → Run β}
    (h : ∀ (r : Realm) (past : List Realm), heaps <+: r.heaps → ∃ out r' later,
      Passes heaps (f r) (r :: past) out (r' :: later) ∧
        (out ≠ .error .outOfFuel → r.SameFrame r')) :
    Steady heaps (get >>= f) := by
  intro r past hr
  obtain ⟨out, r', later, hpass, hframe⟩ := h r past hr
  exact ⟨out, r', later, hpass.get_bind, hframe⟩

/-- The realm may be read and given back as it is, which is a step like any other. -/
theorem steady_modifyGet {f : Realm → α × Realm}
    (h : ∀ r, heaps <+: r.heaps → (f r).2 = r ∨ r.Change (f r).2) :
    Steady heaps (modifyGet f) := by
  intro r past hr
  have hf : r.Change (f r).2 := (h r hr).elim (fun hf => by rw [hf]; exact .store r.store) id
  exact ⟨_, _, _, .step past (.change hf) (hf.sameFrame.heaps ▸ hr), fun _ => hf.sameFrame⟩

/-- What is attempted ends in the frame in which it began, unless it runs out of fuel. -/
theorem Steady.passes_attempt (hx : Steady heaps x) (hr : heaps <+: r.heaps) (past : List Realm) :
    (∃ outcome r' later, Passes heaps (attempt x) (r :: past) (.ok outcome) (r' :: later) ∧
      r.SameFrame r') ∨
    ∃ r' later, Passes heaps (attempt x) (r :: past) (.error .outOfFuel) (r' :: later) := by
  obtain ⟨out, r', later, hpass, hframe⟩ := hx r past hr
  rcases out with (cause | _) | a
  · exact .inl ⟨_, _, _, hpass.attempt_error, hframe nofun⟩
  · exact .inr ⟨_, _, hpass.attempt_outOfFuel⟩
  · exact .inl ⟨_, _, _, hpass.attempt, hframe nofun⟩

theorem Steady.attempt (hx : Steady heaps x) : Steady heaps (Stasis.attempt x) := by
  intro r past hr
  rcases hx.passes_attempt hr past with ⟨outcome, r', later, hpass, hframe⟩ | ⟨r', later, hpass⟩
  · exact ⟨_, _, _, hpass, fun _ => hframe⟩
  · exact ⟨_, _, _, hpass, fun hne => absurd rfl hne⟩

/-- An attempt between a step that begins something and an action that ends it. -/
theorem Steady.between (hx : Steady heaps x) (enter : Realm → Realm)
    {leave : Except EngineError α → Run β} (henter : r.Step (enter r))
    (hr : heaps <+: (enter r).heaps) (past : List Realm)
    (hleave : ∀ outcome r' later, (enter r).SameFrame r' → ∃ out r'' later',
      Passes heaps (leave outcome) (r' :: later) out (r'' :: later') ∧
        (out ≠ .error .outOfFuel → r.SameFrame r'')) :
    ∃ out r' later, Passes heaps (modify enter >>= fun _ => Stasis.attempt x >>= leave) (r :: past)
      out (r' :: later) ∧ (out ≠ .error .outOfFuel → r.SameFrame r') := by
  have hentered : Passes heaps (modify enter) (r :: past) (.ok ()) (enter r :: r :: past) :=
    .modify past henter hr
  rcases hx.passes_attempt hr (r :: past) with
    ⟨outcome, r', later, hpass, hframe⟩ | ⟨r', later, hpass⟩
  · obtain ⟨out, r'', later', hleft, hback⟩ := hleave outcome r' later hframe
    exact ⟨out, r'', later', hentered.bind (hpass.bind hleft), hback⟩
  · exact ⟨_, r', later, hentered.bind (hpass.bind_error _), fun hne => absurd rfl hne⟩

/-- **A call leaves as many calls running as it found.** -/
theorem Steady.nested (hx : Steady heaps x) : Steady heaps (Stasis.nested x) := by
  unfold Stasis.nested
  refine steady_get_bind fun r past hr => ?_
  by_cases hmax : r.config.maxCallDepth ≤ r.depth
  · refine ⟨.error (.error (.callDepth r.config.maxCallDepth)), r, past,
      Passes.get_bind ?_, fun _ => .refl r⟩
    rw [if_pos hmax]
    exact (Passes.throw _ _).bind_error _
  · have hreturn : ∀ outcome (r' : Realm) later, { r with depth := r.depth + 1 }.SameFrame r' →
        ∃ out r'' later', Passes heaps (do
            modify fun s => { s with depth := s.depth - 1 }
            ofExcept outcome : Run α) (r' :: later) out (r'' :: later') ∧
          (out ≠ .error .outOfFuel → r.SameFrame r'') := by
      intro outcome r' later hframe
      have hr' : heaps <+: r'.heaps := by rwa [hframe.heaps]
      have hdepth : r'.depth = r'.depth - 1 + 1 := by rw [hframe.depth, Nat.add_sub_cancel]
      have hreturned : Passes heaps (modify fun s : Realm => { s with depth := s.depth - 1 })
          (r' :: later) (.ok ()) ({ r' with depth := r'.depth - 1 } :: r' :: later) :=
        .modify later (.returned hdepth) hr'
      have hback : r.SameFrame { r' with depth := r'.depth - 1 } :=
        ⟨hframe.heaps, congrArg (· - 1) hframe.depth⟩
      have hstands : Steady heaps (ofExcept outcome) := steady_ofExcept outcome
      obtain ⟨out, s, later', hout, hsame⟩ :=
        hstands { r' with depth := r'.depth - 1 } (r' :: later) hr'
      exact ⟨out, s, later', hreturned.bind hout, fun hne => hback.trans (hsame hne)⟩
    obtain ⟨out, r', later, hpass, hframe⟩ := hx.between (fun s => { s with depth := s.depth + 1 })
      (.called (not_le.mp hmax)) hr past hreturn
    refine ⟨out, r', later, Passes.get_bind ?_, hframe⟩
    rw [if_neg hmax]
    exact hpass

/-- **The moments of a steady action**: they go on by steps up to what the action leaves. -/
theorem Steady.moments (hx : Steady heaps x) (hr : heaps <+: r.heaps) :
    (r.moments x).head? = some (r.run x).2 ∧ Proceeds heaps [r] (r.moments x) := by
  obtain ⟨out, r', later, hpass, -⟩ := hx r [] hr
  obtain ⟨_, ⟨⟩, hrun⟩ := hpass.run_eq rfl
  rw [hpass.moments_eq, hrun]
  exact ⟨rfl, hpass.proceeds⟩

end Steady

end Stasis
