import Stasis.Engine
import Stasis.Proofs.Define

/-!
# Runs that end with a value

* `Yields`: an action, begun in a realm, ends with a value and leaves another realm.
* `WalkYields`: the same for a walk, which has a pass besides the realm.
* `Yields.bind`, `WalkYields.bind`: one action after another.
* `Yields.noted`: an action whose outcome is noted.
* `yields_bind_iff`, `Yields.of_noted`: the way back, from a run to its parts.
* `raises_bind_iff`, `Raises.of_noted`: the same for a run that fails.
-/

namespace Stasis

variable {α β σ : Type} {r r' r'' : Realm} {a : α} {b : β}

/-- The action, begun in `r`, ends with `a` and leaves `r'`. -/
def Yields (action : Run α) (r : Realm) (a : α) (r' : Realm) : Prop :=
  r.run action = (.ok a, r')

theorem run_bind (x : Run α) (f : α → Run β) (r : Realm) :
    r.run (x >>= f) = match r.run x with
      | (.ok a, r') => r'.run (f a)
      | (.error e, r') => (.error e, r') := by
  unfold Realm.run
  rw [ExceptT.run_bind, Recorded.erase_bind, StateT.run_bind]
  rcases x.run.erase.run r with ⟨_ | _, _⟩ <;> rfl

theorem Yields.pure (a : α) (r : Realm) : Yields (Pure.pure a) r a r := rfl

theorem Yields.bind {x : Run α} {f : α → Run β} (hx : Yields x r a r')
    (hf : Yields (f a) r' b r'') : Yields (x >>= f) r b r'' := by
  unfold Yields at hx ⊢
  rw [run_bind, hx]
  exact hf

theorem yields_get (r : Realm) : Yields (get : Run Realm) r r r := rfl

theorem yields_modify (f : Realm → Realm) (r : Realm) : Yields (modify f) r () (f r) := rfl

theorem yields_modifyGet (f : Realm → α × Realm) (r : Realm) :
    Yields (modifyGet f) r (f r).1 (f r).2 := rfl

theorem yields_set (r r' : Realm) : Yields (set r' : Run Unit) r () r' := rfl

theorem yields_realm (r : Realm) : Yields realm r r r := rfl

/-! ## What a run comes to -/

theorem Yields.run_bind {x : Run α} (hx : Yields x r a r') (f : α → Run β) :
    r.run (x >>= f) = r'.run (f a) := by
  rw [Stasis.run_bind, hx]

theorem run_tryCatch (x : Run α) (h : Fault → Run α) (r : Realm) :
    r.run (tryCatch x h) = match r.run x with
      | (.ok a, r') => (.ok a, r')
      | (.error e, r') => r'.run (h e) := by
  unfold Realm.run
  rw [ExceptT.run_tryCatch, Recorded.erase_bind, StateT.run_bind]
  rcases x.run.erase.run r with ⟨_ | _, _⟩ <;> rfl

theorem run_attempt (x : Run α) (r : Realm) :
    r.run (attempt x) = match r.run x with
      | (.ok a, r') => (.ok (.ok a), r')
      | (.error (.error cause), r') => (.ok (.error cause), r')
      | (.error .outOfFuel, r') => (.error .outOfFuel, r') := by
  unfold attempt
  rw [run_tryCatch, run_bind]
  rcases r.run x with ⟨(_ | _) | _, _⟩ <;> rfl

/-- To catch a failure changes nothing. -/
theorem run_attempt_snd (x : Run α) (r : Realm) : (r.run (attempt x)).2 = (r.run x).2 := by
  rw [run_attempt]
  obtain ⟨(cause | _) | a, r'⟩ := r.run x <;> rfl

/-- What is caught when an action succeeds. -/
theorem Yields.attempt {x : Run α} (hx : Yields x r a r') :
    Yields (Stasis.attempt x) r (.ok a) r' := by
  have h : Yields (x >>= fun a => Pure.pure (Except.ok a : Except EngineError α)) r (.ok a) r' :=
    hx.bind (Yields.pure _ r')
  unfold Stasis.attempt Yields
  rw [run_tryCatch, h]

theorem yields_ofExcept (a : α) (r : Realm) : Yields (ofExcept (.ok a)) r a r := rfl

theorem yields_ofStore {read : Store → Except HeapError α} (h : read r.store = .ok a) :
    Yields (ofStore read) r a r := by
  refine Yields.bind (yields_get r) ?_
  simp only [h]
  exact Yields.pure a r

theorem yields_changeStore {change : Store → Except HeapError (Store × α)} {s : Store}
    (h : change r.store = .ok (s, a)) : Yields (changeStore change) r a { r with store := s } := by
  refine Yields.bind (yields_get r) ?_
  simp only [h]
  exact Yields.bind (yields_modify _ r) (Yields.pure a _)

theorem yields_objectAt {id : ObjectId} {o : Object} (h : r.store.get id = .ok o) :
    Yields (objectAt id) r o r :=
  yields_ofStore h

theorem yields_kindOf {id : ObjectId} {o : Object} (h : r.store.get id = .ok o) :
    Yields (kindOf id) r o.kind r :=
  Yields.bind (yields_objectAt h) (Yields.pure _ r)

theorem yields_allocate (prototype : Option ObjectId) (kind : Kind) (r : Realm) :
    Yields (allocate prototype kind) r r.store.objects.size
      { r with store := ⟨r.store.objects.push { prototype, kind }⟩ } := rfl

theorem yields_setKind {id : ObjectId} {o : Object} {kind : Kind}
    (h : r.store.get id = .ok o) :
    Yields (setKind id kind) r () { r with store := r.store.set id { o with kind } } := by
  refine yields_changeStore ?_
  simp [Store.modify, h, bind, Except.bind, pure, Except.pure]

theorem yields_define {id : ObjectId} {o o' : Object} {key : Key} {d : Descriptor}
    (h : r.store.get id = .ok o) (hd : o.define? key d = some o') :
    Yields (define id key d) r true { r with store := r.store.set id o' } := by
  refine yields_changeStore ?_
  simp [Store.define, h, Object.define_eq, hd, bind, Except.bind, pure, Except.pure]

theorem yields_forIn_nil {γ : Type} (f : γ → PUnit → Run (ForInStep PUnit)) (r : Realm) :
    Yields (forIn [] PUnit.unit f) r () r := by
  simpa using Yields.pure PUnit.unit r

theorem yields_forIn_cons {γ : Type} {f : γ → PUnit → Run (ForInStep PUnit)} {c : γ} {l : List γ}
    (hc : Yields (f c ()) r (.yield ()) r') (hl : Yields (forIn l PUnit.unit f) r' () r'') :
    Yields (forIn (c :: l) PUnit.unit f) r () r'' := by
  rw [List.forIn_cons]
  exact hc.bind hl

theorem yields_iterate_stop {action : σ → Run (σ ⊕ α)} {s : σ} {n : Nat}
    (h : Yields (action s) r (.inr a) r') : Yields (iterate action (n + 1) s) r a r' :=
  h.bind (Yields.pure a r')

theorem yields_iterate_step {action : σ → Run (σ ⊕ α)} {s s' : σ} {n : Nat}
    (h : Yields (action s) r (.inl s') r') (hn : Yields (iterate action n s') r' a r'') :
    Yields (iterate action (n + 1) s) r a r'' :=
  h.bind hn

theorem Yields.noted {component event detail : String} {d : Except EngineError α → Run String}
    {action : Run α} (h : Yields action r a r') (hd : Yields (d (.ok a)) r' detail r') :
    Yields (Stasis.noted component event d action) r a
      { r' with events := r'.events.push component event outcomeAllow noErrorCode detail } := by
  refine h.attempt.bind (hd.bind ?_)
  exact (yields_modify _ r').bind (yields_ofExcept a _)

/-! ## Runs that have ended with a value -/

section Inversion

variable {x : Run α} {f : α → Run β}

/-- Both parts of a run that ends with a value do so. -/
theorem yields_bind_iff :
    Yields (x >>= f) r b r' ↔ ∃ a r₁, Yields x r a r₁ ∧ Yields (f a) r₁ b r' := by
  refine ⟨fun h => ?_, fun ⟨a, r₁, hx, hf⟩ => hx.bind hf⟩
  unfold Yields at h
  rw [run_bind] at h
  cases hx : r.run x with
  | mk out r₁ =>
    rw [hx] at h
    cases out with
    | error fault => cases h
    | ok a => exact ⟨a, r₁, hx, h⟩

theorem Yields.of_attempt (h : Yields (Stasis.attempt x) r (.ok a) r') : Yields x r a r' := by
  unfold Yields at h
  rw [run_attempt] at h
  unfold Yields
  generalize r.run x = out at h ⊢
  obtain ⟨(_ | _) | _, _⟩ := out <;> cases h
  rfl

theorem Yields.of_ofExcept {outcome : Except EngineError α} (h : Yields (ofExcept outcome) r a r') :
    outcome = .ok a ∧ r' = r := by
  cases outcome with
  | ok a' =>
    cases h
    exact ⟨rfl, rfl⟩
  | error cause => cases h

/-- An action whose outcome was noted, and what came after it. -/
theorem Yields.of_noted {component event : String} {detail : Except EngineError α → Run String}
    (h : Yields (Stasis.noted component event detail x) r a r') :
    ∃ r₁ text, Yields x r a r₁ ∧ Yields (do
      let text ← detail (.ok a)
      note component event outcomeAllow noErrorCode text
      return text) r₁ text r' := by
  unfold Stasis.noted at h
  obtain ⟨outcome, r₁, hx, h⟩ := yields_bind_iff.mp h
  obtain ⟨text, r₂, hdetail, h⟩ := yields_bind_iff.mp h
  cases outcome with
  | error cause =>
    obtain ⟨_, r₃, -, h⟩ := yields_bind_iff.mp h
    cases h.of_ofExcept.1
  | ok a' =>
    obtain ⟨_, r₃, hnote, h⟩ := yields_bind_iff.mp h
    obtain ⟨⟨⟩, rfl⟩ := h.of_ofExcept
    exact ⟨r₁, text, hx.of_attempt, hdetail.bind (hnote.bind (Yields.pure text _))⟩

theorem exists_yields_of_isOk (h : (r.run x).1.isOk = true) : ∃ a r', Yields x r a r' := by
  unfold Yields
  generalize r.run x = out at h ⊢
  obtain ⟨_ | a, r'⟩ := out
  · cases h
  · exact ⟨a, r', rfl⟩

/-- A run that has been computed, and something that has been computed of its answer. -/
theorem exists_yields_of_any {p : α → Bool} (h : (r.run x).1.toOption.any p = true) :
    ∃ a r', Yields x r a r' ∧ p a = true := by
  obtain ⟨a, ha, hp⟩ := (Option.any_eq_true p _).mp h
  cases hout : (r.run x).1 with
  | error fault =>
    rw [hout] at ha
    cases ha
  | ok b =>
    rw [hout] at ha
    cases ha
    exact ⟨a, _, Prod.ext hout rfl, hp⟩

end Inversion

/-! ## Runs that fail -/

/-- The action, begun in `r`, fails for a cause and leaves `r'`. -/
def Raises (action : Run α) (r : Realm) (cause : EngineError) (r' : Realm) : Prop :=
  r.run action = (.error (.error cause), r')

section Raises

variable {cause : EngineError}

theorem raises_raise (cause : EngineError) (r : Realm) :
    Raises (raise cause : Run α) r cause r := rfl

theorem Raises.bind {x : Run α} (hx : Raises x r cause r') (f : α → Run β) :
    Raises (x >>= f) r cause r' := by
  unfold Raises at hx ⊢
  rw [run_bind, hx]

theorem Yields.bind_raises {x : Run α} {f : α → Run β} (hx : Yields x r a r')
    (hf : Raises (f a) r' cause r'') : Raises (x >>= f) r cause r'' :=
  (hx.run_bind f).trans hf

theorem Yields.not_raises {x : Run α} (h : Yields x r a r') : ¬ Raises x r cause r'' := by
  intro hr
  have he := h.symm.trans hr
  cases he

/-- What is caught when an action fails. -/
theorem Raises.attempt {x : Run α} (hx : Raises x r cause r') :
    Yields (Stasis.attempt x) r (.error cause) r' := by
  have h := hx.bind fun a => (Pure.pure (Except.ok a) : Run (Except EngineError α))
  unfold Stasis.attempt Yields
  rw [run_tryCatch, h]
  rfl

/-- What throws gives no value. -/
theorem not_yields_throwNew {kind : ErrorKind} {message : String} :
    ¬ Yields (throwNew kind message : Run α) r a r' := by
  intro h
  obtain ⟨_, r₁, -, h⟩ := yields_bind_iff.mp h
  cases h

theorem raises_forIn_cons {γ : Type} {f : γ → PUnit → Run (ForInStep PUnit)} {c : γ} {l : List γ}
    (hc : Raises (f c ()) r cause r') : Raises (forIn (c :: l) PUnit.unit f) r cause r' := by
  rw [List.forIn_cons]
  exact hc.bind _

theorem Raises.noted {component event detail : String} {d : Except EngineError α → Run String}
    {action : Run α} (h : Raises action r cause r') (hd : Yields (d (.error cause)) r' detail r') :
    ∃ r'', Raises (Stasis.noted component event d action) r cause r'' := by
  exact ⟨_, h.attempt.bind_raises (hd.bind_raises
    ((yields_modify _ r').bind_raises (raises_raise cause _)))⟩

theorem raises_changeStore {change : Store → Except HeapError (Store × α)} {e : HeapError}
    (h : change r.store = .error e) : Raises (changeStore change) r (.heap e) r := by
  refine (yields_get r).bind_raises ?_
  simp only [h]
  exact raises_raise _ r

/-! ### Back to where it failed -/

/-- A run that fails does so in its first part or after it. -/
theorem raises_bind_iff {x : Run α} {f : α → Run β} :
    Raises (x >>= f) r cause r' ↔
      Raises x r cause r' ∨ ∃ a r₁, Yields x r a r₁ ∧ Raises (f a) r₁ cause r' := by
  unfold Raises Yields
  rw [run_bind]
  rcases r.run x with ⟨fault | a, r₁⟩
  · simp
  · simp only [Prod.mk.injEq, reduceCtorEq, false_and, false_or, Except.ok.injEq]
    exact ⟨fun h => ⟨a, r₁, ⟨rfl, rfl⟩, h⟩, fun ⟨_, _, ⟨ha, hr⟩, h⟩ => ha ▸ hr ▸ h⟩

theorem not_raises_attempt {x : Run α} : ¬ Raises (Stasis.attempt x) r cause r' := by
  unfold Raises
  rw [run_attempt]
  rcases r.run x with ⟨(_ | _) | _, _⟩ <;> nofun

theorem Raises.of_attempt {x : Run α} (h : Yields (Stasis.attempt x) r (.error cause) r') :
    Raises x r cause r' := by
  unfold Yields at h
  rw [run_attempt] at h
  unfold Raises
  generalize r.run x = out at h ⊢
  obtain ⟨(_ | _) | _, _⟩ := out <;> cases h
  rfl

/-- An action whose failure was noted, with a detail that does not fail. -/
theorem Raises.of_noted {component event : String} {detail : Except EngineError α → Run String}
    {x : Run α} (hdetail : ∀ outcome r, ∃ text, Yields (detail outcome) r text r)
    (h : Raises (Stasis.noted component event detail x) r cause r') :
    ∃ r₁ events, Raises x r cause r₁ ∧ r' = { r₁ with events } := by
  unfold Stasis.noted at h
  obtain ⟨outcome, r₁, hx, h⟩ := (raises_bind_iff.mp h).resolve_left not_raises_attempt
  obtain ⟨text, htext⟩ := hdetail outcome r₁
  unfold Raises at h
  rw [htext.run_bind] at h
  cases outcome with
  | ok a => cases h
  | error cause' =>
    cases h
    exact ⟨r₁, _, .of_attempt hx, rfl⟩

end Raises

/-! ## Walks -/

/-- The walk, begun in `r` with the pass `p`, ends with `a` and leaves `r'` and `p'`. -/
def WalkYields (walk : Walk α) (r : Realm) (p : Pass) (a : α) (r' : Realm) (p' : Pass) : Prop :=
  Yields (walk.run p) r (a, p') r'

section Walk

variable {p p' p'' : Pass}

theorem WalkYields.pure (a : α) (r : Realm) (p : Pass) :
    WalkYields (Pure.pure a) r p a r p := rfl

theorem WalkYields.bind {x : Walk α} {f : α → Walk β} (hx : WalkYields x r p a r' p')
    (hf : WalkYields (f a) r' p' b r'' p'') : WalkYields (x >>= f) r p b r'' p'' := by
  unfold WalkYields at hx hf ⊢
  rw [StateT.run_bind]
  exact Yields.bind hx hf

theorem WalkYields.run_bind {x : Walk α} (hx : WalkYields x r p a r' p') (f : α → Walk β) :
    r.run ((x >>= f).run p) = r'.run ((f a).run p') := by
  rw [StateT.run_bind]
  exact Yields.run_bind hx _

theorem walkYields_bind_iff {x : Walk α} {f : α → Walk β} :
    WalkYields (x >>= f) r p b r' p' ↔
      ∃ a r₁ p₁, WalkYields x r p a r₁ p₁ ∧ WalkYields (f a) r₁ p₁ b r' p' := by
  unfold WalkYields
  rw [StateT.run_bind, yields_bind_iff]
  constructor
  · rintro ⟨⟨a, p₁⟩, r₁, hx, hf⟩
    exact ⟨a, r₁, p₁, hx, hf⟩
  · rintro ⟨a, r₁, p₁, hx, hf⟩
    exact ⟨(a, p₁), r₁, hx, hf⟩

theorem Yields.walk {x : Run α} (hx : Yields x r a r') (p : Pass) :
    WalkYields (liftM x) r p a r' p :=
  hx.bind (Yields.pure (a, p) r')

theorem walkYields_get (r : Realm) (p : Pass) : WalkYields (get : Walk Pass) r p p r p := rfl

theorem walkYields_set (r : Realm) (p p' : Pass) :
    WalkYields (set p' : Walk Unit) r p () r p' := rfl

theorem walkYields_modify (f : Pass → Pass) (r : Realm) (p : Pass) :
    WalkYields (modify f) r p () r (f p) := rfl

end Walk

end Stasis
