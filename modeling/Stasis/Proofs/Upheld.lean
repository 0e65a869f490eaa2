import Mathlib
import Stasis.Proofs.Run

/-!
# Actions that leave something true

* `Upholds`: an action that leaves true what was true when it began, with what is known of its
  value.
* `Preserves`: such an action, with nothing said of its value.
* `Upholds.bind`, `Upholds.attempt`, `upholds_forIn`, `upholds_iterate`: actions made of actions.
* `upholds_changeStore`: a change of the store.
* `holds_of_noted`: an action of which it is noted how it ended.
-/

namespace Stasis

/-- Begun where `I` is true, the action leaves it true, unless the bound on the work was too low, and
a value that it ends with is as told. -/
def Upholds {α : Type} (I : Realm → Prop) (x : Run α) (Q : α → Prop) : Prop :=
  ∀ r out r', I r → r.run x = (out, r') → out ≠ .error .outOfFuel → I r' ∧ ∀ a, out = .ok a → Q a

/-- Begun where `I` is true, the action leaves it true. -/
def Preserves {α : Type} (I : Realm → Prop) (x : Run α) : Prop := Upholds I x fun _ => True

variable {α β σ : Type} {I : Realm → Prop} {x : Run α} {f : α → Run β} {Q Q' : α → Prop}
  {P : β → Prop}

theorem Upholds.mono (hx : Upholds I x Q) (h : ∀ a, Q a → Q' a) : Upholds I x Q' := by
  intro r out r' hr hrun hfuel
  obtain ⟨hr', hout⟩ := hx r out r' hr hrun hfuel
  exact ⟨hr', fun a ha => h a (hout a ha)⟩

theorem Upholds.preserves (hx : Upholds I x Q) : Preserves I x := hx.mono fun _ _ => trivial

theorem Upholds.bind (hx : Upholds I x Q) (hf : ∀ a, Q a → Upholds I (f a) P) :
    Upholds I (x >>= f) P := by
  intro r out r' hr hrun hfuel
  rw [run_bind] at hrun
  rcases h₁ : r.run x with ⟨fault | a, r₁⟩
  · rw [h₁] at hrun
    cases hrun
    exact ⟨(hx r _ _ hr h₁ fun he => hfuel (by cases he; rfl)).1, nofun⟩
  · rw [h₁] at hrun
    obtain ⟨hr₁, ha⟩ := hx r _ _ hr h₁ nofun
    exact hf a (ha a rfl) r₁ out r' hr₁ hrun hfuel

/-- After an action of whose value nothing is known. -/
theorem Preserves.bind (hx : Preserves I x) (hf : ∀ a, Upholds I (f a) P) : Upholds I (x >>= f) P :=
  Upholds.bind hx fun a _ => hf a

/-! ## Primitive actions -/

theorem Upholds.pure {a : α} (h : Q a) : Upholds I (Pure.pure a) Q := by
  rintro r _ _ hr ⟨⟩ -
  refine ⟨hr, ?_⟩
  rintro _ ⟨⟩
  exact h

theorem Preserves.pure (a : α) : Preserves I (Pure.pure a) := Upholds.pure trivial

theorem upholds_throw (fault : Fault) (Q : α → Prop) : Upholds I (throw fault) Q := by
  rintro r _ _ hr ⟨⟩ -
  exact ⟨hr, nofun⟩

theorem upholds_raise (cause : EngineError) (Q : α → Prop) : Upholds I (raise cause) Q :=
  upholds_throw _ Q

theorem upholds_ofExcept {outcome : Except EngineError α} (h : ∀ a, outcome = .ok a → Q a) :
    Upholds I (ofExcept outcome) Q := by
  cases outcome with
  | ok a => exact Upholds.pure (h a rfl)
  | error cause => exact upholds_raise cause Q

theorem upholds_get : Upholds I get I := by
  rintro r _ _ hr ⟨⟩ -
  refine ⟨hr, ?_⟩
  rintro _ ⟨⟩
  exact hr

theorem upholds_modifyGet {f : Realm → α × Realm} (h : ∀ r, I r → I (f r).2 ∧ Q (f r).1) :
    Upholds I (modifyGet f) Q := by
  rintro r _ _ hr ⟨⟩ -
  refine ⟨(h r hr).1, ?_⟩
  rintro _ ⟨⟩
  exact (h r hr).2

theorem preserves_modify {f : Realm → Realm} (h : ∀ r, I r → I (f r)) : Preserves I (modify f) :=
  upholds_modifyGet (f := fun r => ((), f r)) fun r hr => ⟨h r hr, trivial⟩

theorem preserves_ofStore (read : Store → Except HeapError α) : Preserves I (ofStore read) := by
  refine upholds_get.bind fun r _ => ?_
  split
  · exact Preserves.pure _
  · exact upholds_raise _ _

theorem preserves_objectAt (id : ObjectId) : Preserves I (objectAt id) := preserves_ofStore _

theorem preserves_kindOf (id : ObjectId) : Preserves I (kindOf id) :=
  (preserves_objectAt id).bind fun _ => Preserves.pure _

theorem upholds_changeStore {change : Store → Except HeapError (Store × α)}
    (h : ∀ r store a, I r → change r.store = .ok (store, a) → I { r with store } ∧ Q a) :
    Upholds I (changeStore change) Q := by
  intro r out r' hr hrun _
  have hget : r.run get = (.ok r, r) := rfl
  unfold changeStore at hrun
  simp only [run_bind, hget] at hrun
  split at hrun
  · next store a hchange =>
    obtain ⟨hstore, hvalue⟩ := h r store a hr hchange
    cases hrun
    refine ⟨hstore, ?_⟩
    rintro _ ⟨⟩
    exact hvalue
  · cases hrun
    exact ⟨hr, nofun⟩

theorem preserves_display (v : Value) : Preserves I (display v) := by
  refine upholds_get.bind fun r _ => ?_
  split
  · exact Preserves.pure _
  · exact upholds_throw _ _

theorem preserves_displayKey (key : Key) : Preserves I (displayKey key) :=
  upholds_get.bind fun _ _ => Preserves.pure _

/-! ## Actions made of actions -/

theorem Upholds.attempt (hx : Upholds I x Q) :
    Upholds I (Stasis.attempt x) fun outcome => ∀ a, outcome = .ok a → Q a := by
  intro r out r' hr hrun hfuel
  rw [run_attempt] at hrun
  rcases h₁ : r.run x with ⟨(cause | _) | a, r₁⟩ <;> rw [h₁] at hrun <;> cases hrun
  · refine ⟨(hx r _ _ hr h₁ nofun).1, ?_⟩
    rintro _ ⟨⟩
    exact nofun
  · exact absurd rfl hfuel
  · obtain ⟨hr', ha⟩ := hx r _ _ hr h₁ nofun
    refine ⟨hr', ?_⟩
    rintro _ ⟨⟩ a' ⟨⟩
    exact ha a rfl

/-- Noting how an action ended preserves what does not speak of events. -/
theorem preserves_ended {component event : String} {detail : Except EngineError α → Run String}
    (hevents : ∀ r events, I r → I { r with events })
    (hdetail : ∀ outcome, Preserves I (detail outcome)) (outcome : Except EngineError α) :
    Preserves I (do
      let text ← detail outcome
      match outcome with
      | .ok _ => note component event outcomeAllow noErrorCode text
      | .error cause => note component event outcomeDeny cause.code (text ++ ": " ++ cause.message)
      ofExcept outcome) := by
  have hnote : ∀ outcome code text, Preserves I (note component event outcome code text) :=
    fun _ _ _ => preserves_modify fun r hr => hevents r _ hr
  refine (hdetail outcome).bind fun text => ?_
  cases outcome <;> exact (hnote _ _ _).bind fun _ => upholds_ofExcept fun _ _ => trivial

/-- What is true when an action is over is true when it has been noted how it ended, unless it
speaks of events. -/
theorem holds_of_noted {r : Realm} {component event : String}
    {detail : Except EngineError α → Run String} (hevents : ∀ r events, I r → I { r with events })
    (hdetail : ∀ outcome, Preserves I (detail outcome))
    (hx : ∀ out r', r.run x = (out, r') → out ≠ .error .outOfFuel → I r') :
    ∀ out r', r.run (noted component event detail x) = (out, r') → out ≠ .error .outOfFuel →
      I r' := by
  intro out r' hrun hfuel
  unfold noted at hrun
  rw [run_bind, run_attempt] at hrun
  rcases h₁ : r.run x with ⟨(cause | _) | a, r₁⟩ <;> rw [h₁] at hrun
  · have hr₁ : I r₁ := hx _ _ h₁ (by simp)
    exact (preserves_ended hevents hdetail _ r₁ out r' hr₁ hrun hfuel).1
  · cases hrun
    exact absurd rfl hfuel
  · have hr₁ : I r₁ := hx _ _ h₁ (by simp)
    exact (preserves_ended hevents hdetail _ r₁ out r' hr₁ hrun hfuel).1

/-- A loop whose body preserves what is true for each member of the list. -/
theorem preserves_forIn {f : α → σ → Run (ForInStep σ)} {l : List α}
    (h : ∀ a ∈ l, ∀ s, Preserves I (f a s)) : ∀ s, Preserves I (forIn l s f) := by
  induction l with
  | nil => exact fun s => Preserves.pure _
  | cons a l ih =>
    obtain ⟨ha, hl⟩ := List.forall_mem_cons.mp h
    intro s
    rw [List.forIn_cons]
    refine (ha s).bind fun next => ?_
    cases next with
    | done s => exact Preserves.pure s
    | yield s => exact ih hl s

theorem preserves_iterate {action : σ → Run (σ ⊕ α)} (h : ∀ s, Preserves I (action s)) (n : ℕ) :
    ∀ s, Preserves I (iterate action n s) := by
  induction n with
  | zero => exact fun s => upholds_throw _ _
  | succ n ih =>
    intro s
    refine (h s).bind fun next => ?_
    cases next with
    | inl s => exact ih s
    | inr a => exact Preserves.pure a

end Stasis
