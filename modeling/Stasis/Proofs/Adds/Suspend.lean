import Mathlib
import Stasis.Proofs.Adds.Native

/-!
# Recording the paths of a fresh realm only adds

Where no function has a recorded source, a walk through objects asks no thunk and evaluates no
expression of a member. It notes paths, references and events, and leaves everything else as it is.

* `Base.AddsWalk`: a part of a walk that only adds.
* `Base.adds_suspendValue`: a walk through what a value refers to.
* `Base.adds_registerHostRoot`: recording the paths of what can be reached.
-/

namespace Stasis.Base

variable {α β γ : Type} {b : Base}

/-! ## Parts of a walk -/

/-- Begun over the base, this part of a walk leaves a realm over it. -/
def AddsWalk (b : Base) (x : Walk α) : Prop := ∀ p, b.Adds (x.run p)

section Walks

variable {x : Walk α} {f : α → Walk β} {y : Run α} {Q : α → Prop}

theorem AddsWalk.pure (a : α) : b.AddsWalk (Pure.pure a) := fun _ => Adds.pure _

theorem AddsWalk.bind (hx : b.AddsWalk x) (hf : ∀ a, b.AddsWalk (f a)) : b.AddsWalk (x >>= f) := by
  intro p
  rw [StateT.run_bind]
  exact (hx p).bind fun out => hf out.1 out.2

/-- An action in the realm, as a part of a walk. -/
theorem Adds.walk (hy : b.Adds y) : b.AddsWalk (liftM y) :=
  fun _ => hy.bind fun _ => Adds.pure _

/-- An action in the realm of whose value something is known, and the walk after it. -/
theorem Gives.walk_bind (hy : b.Gives y Q) (hf : ∀ a, Q a → b.AddsWalk (f a)) :
    b.AddsWalk (liftM y >>= f) := by
  intro p
  have hlift : b.Gives ((liftM y : Walk α).run p) fun out => Q out.1 :=
    hy.bind fun a ha => Gives.pure ha
  rw [StateT.run_bind]
  exact hlift.bind_adds fun out hout => hf out.1 hout out.2

theorem addsWalk_get : b.AddsWalk (get : Walk Pass) := fun _ => Adds.pure _

theorem addsWalk_set (p : Pass) : b.AddsWalk (set p) := fun _ => Adds.pure _

theorem addsWalk_modify (g : Pass → Pass) : b.AddsWalk (modify g) := fun _ => Adds.pure _

theorem addsWalk_mapM {g : γ → Walk α} (hg : ∀ c, b.AddsWalk (g c)) (l : List γ) :
    b.AddsWalk (l.mapM g) := by
  induction l with
  | nil => exact AddsWalk.pure _
  | cons c l ih =>
    rw [List.mapM_cons]
    exact (hg c).bind fun _ => ih.bind fun _ => AddsWalk.pure _

end Walks

/-! ## Notes -/

section Notes

variable (hb : b.noting = true)

include hb

theorem adds_note (component event outcome errorCode detail : String) :
    b.Adds (note component event outcome errorCode detail) :=
  adds_modify fun _ hr => ⟨hr.withNotes hb _ _ _, rfl⟩

theorem Adds.noted {x : Run α} (hx : b.Adds x) (component event : String)
    {detail : Except EngineError α → Run String} (hd : ∀ outcome, b.Adds (detail outcome)) :
    b.Adds (Stasis.noted component event detail x) := by
  refine hx.attempt.bind fun outcome => (hd outcome).bind fun text => ?_
  cases outcome <;> exact (adds_note hb _ _ _ _ _).bind fun _ => adds_ofExcept _

theorem adds_referenceFor (id : ObjectId) : b.Adds (referenceFor id) :=
  gives_modifyGet fun _ hr => ⟨hr.withNotes hb _ _ _, rfl, trivial⟩

theorem adds_recordPath (id : ObjectId) (path : String) : b.Adds (recordPath id path) :=
  adds_modify fun _ hr => ⟨hr.withNotes hb _ _ _, rfl⟩

theorem adds_taggedSymbol (id : SymbolId) : b.Adds (taggedSymbol id) := by
  intro r out r' hr hrun
  have hget : r.run get = (.ok r, r) := rfl
  unfold taggedSymbol at hrun
  rw [run_bind, hget] at hrun
  dsimp only at hrun
  split at hrun
  · cases hrun
    exact ⟨hr, fun _ => rfl, fun _ _ => trivial⟩
  · cases hrun
    exact ⟨hr.withNotes hb _ _ _, fun _ => rfl, fun _ _ => trivial⟩

theorem adds_taggedKey (key : Key) : b.Adds (taggedKey key) := by
  cases key with
  | text s => exact Adds.pure _
  | symbol id => exact adds_taggedSymbol hb id

/-- No function of the realm has a recorded source. -/
theorem gives_realm : b.Gives Stasis.realm fun r => r.registry = {} :=
  gives_get.mono fun r hr => by rw [hr.rest, b.unregistered hb]

end Notes

/-! ## The walk -/

theorem adds_describeFunction (id : ObjectId) : b.Adds (describeFunction id) := by
  refine (adds_functionName id).bind fun name => (adds_kindOf id).bind fun kind => ?_
  split <;> exact Adds.pure _

section Suspending

variable [Machine] [TameMachine b] (hb : b.noting = true)

theorem adds_textOf? (v : Value) (name : String) : b.Adds (textOf? v name) := by
  refine (adds_getNamed v name).bind fun property => ?_
  split
  · exact Adds.pure _
  · exact (adds_toText _).bind fun _ => Adds.pure _

include hb

theorem addsWalk_child (v : Value) (parent : Option String) (step : PathStep) :
    b.AddsWalk (child v parent step) := by
  refine addsWalk_get.bind fun pass => ?_
  split
  · exact AddsWalk.pure _
  · have hsuspend : b.Adds (suspendAt pass v (step.apply parent)) :=
      TameMachine.suspend hb pass v (step.apply parent)
    exact hsuspend.walk.bind fun out => (addsWalk_set out.2).bind fun _ => AddsWalk.pure _

omit [TameMachine b] in
/-- A function without a recorded source is found by its path, or it is refused. -/
theorem addsWalk_functionPayload (id : ObjectId) (path : Option String) :
    b.AddsWalk (functionPayload id path) := by
  unfold functionPayload
  refine (gives_realm hb).walk_bind fun r hr => ?_
  rw [hr]
  refine adds_get.walk.bind fun r' => ?_
  split
  · exact AddsWalk.pure _
  · refine (adds_referenceFor hb id).walk.bind fun reference => ?_
    exact (adds_describeFunction id).walk.bind fun text => (adds_raise _).walk

theorem addsWalk_payloadOf (type : ObjectType) (id : ObjectId) (path : Option String) :
    b.AddsWalk (payloadOf type id path) := by
  have hsingle : ∀ (make : Tagged → Payload) (v : Value) (step : PathStep),
      b.AddsWalk (do return make (← child v path step)) :=
    fun make v step => (addsWalk_child hb v path step).bind fun _ => AddsWalk.pure _
  unfold payloadOf
  refine (adds_kindOf id).walk.bind fun kind => ?_
  split
  · exact adds_get.walk.bind fun r => hsingle _ _ _
  · exact addsWalk_functionPayload hb id path
  · refine (addsWalk_mapM (fun entry => ?_) _).bind fun _ => AddsWalk.pure _
    exact (addsWalk_child hb _ path _).bind fun _ => (addsWalk_child hb _ path _).bind fun _ =>
      AddsWalk.pure _
  · exact (addsWalk_mapM (fun _ => addsWalk_child hb _ path _) _).bind fun _ => AddsWalk.pure _
  · exact hsingle _ _ _
  · exact AddsWalk.pure _
  · exact (adds_textOf? _ _).walk.bind fun message => (adds_textOf? _ _).walk.bind fun name =>
      (adds_textOf? _ _).walk.bind fun stack => AddsWalk.pure _
  · exact AddsWalk.pure _
  · exact hsingle _ _ _
  · exact hsingle _ _ _
  · exact AddsWalk.pure _
  · exact AddsWalk.pure _
  · exact (addsWalk_child hb _ path _).bind fun _ => AddsWalk.pure _
  · exact AddsWalk.pure _

theorem addsWalk_slotOf (key : Key) (d : Descriptor) (path : Option String) :
    b.AddsWalk (slotOf key d path) := by
  refine adds_get.walk.bind fun r => ?_
  cases d with
  | data v w e c => exact (addsWalk_child hb v path _).bind fun _ => AddsWalk.pure _
  | accessor g s e c =>
    exact (addsWalk_child hb _ path _).bind fun _ => (addsWalk_child hb _ path _).bind fun _ =>
      AddsWalk.pure _

theorem addsWalk_entryOf (id : ObjectId) (reference : String) (path : Option String) :
    b.AddsWalk (entryOf id reference path) := by
  unfold entryOf
  refine (adds_objectAt id).walk.bind fun o => adds_get.walk.bind fun r => ?_
  extract_lets types type kept rest
  have hrest : ∀ u, b.AddsWalk (rest u) := by
    intro u
    have hproperty : ∀ c : Key × Descriptor, b.AddsWalk (do
        let tagged ← taggedKey c.1
        return (tagged, ← slotOf c.1 c.2 path) : Walk (Tagged × Slot)) :=
      fun c => (adds_taggedKey hb c.1).walk.bind fun _ =>
        (addsWalk_slotOf hb c.1 c.2 path).bind fun _ => AddsWalk.pure _
    refine (addsWalk_mapM hproperty kept).bind fun properties => ?_
    refine (adds_objectAt id).walk.bind fun o' => (addsWalk_child hb _ path _).bind fun prototype => ?_
    extract_lets finish
    have hfinish : ∀ written, b.AddsWalk (finish written) := fun written =>
      (adds_objectAt id).walk.bind fun o'' => AddsWalk.pure _
    clear_value finish type
    cases type with
    | some t =>
      refine (addsWalk_payloadOf hb t id path).bind fun payload => ?_
      rw [pure_bind]
      exact hfinish _
    | none => exact hfinish _
  split
  · exact (adds_raise _).walk.bind hrest
  · exact hrest ()

theorem addsWalk_suspendObject (id : ObjectId) (path : Option String) :
    b.AddsWalk (suspendObject id path) := by
  unfold suspendObject
  refine adds_get.walk.bind fun r => ?_
  split
  · exact AddsWalk.pure _
  · refine addsWalk_get.bind fun p => (adds_kindOf id).walk.bind fun kind => ?_
    extract_lets refer
    have hrefer : ∀ u, b.AddsWalk (refer u) := fun _ => by
      refine (adds_referenceFor hb id).walk.bind fun reference => addsWalk_get.bind fun p' => ?_
      split
      · exact (addsWalk_modify _).bind fun _ => (addsWalk_entryOf hb id reference path).bind fun _ =>
          (addsWalk_modify _).bind fun _ => AddsWalk.pure _
      · exact AddsWalk.pure _
    clear_value refer
    split
    · exact AddsWalk.pure _
    · cases path with
      | some path => exact (adds_recordPath hb id path).walk.bind hrefer
      | none => exact hrefer ()

/-- **A walk through what a value refers to only adds**, and notes paths and references. -/
theorem adds_suspendValue (pass : Pass) (v : Value) (path : Option String) :
    b.Adds (suspendValue pass v path) := by
  have hvalue : b.AddsWalk (taggedValue v path) := by
    cases v with
    | symbol id => exact (adds_taggedSymbol hb id).walk
    | object id => exact addsWalk_suspendObject hb id path
    | _ => exact AddsWalk.pure _
  exact hvalue pass

theorem adds_registerHostRoot (v : Value) (path : String) : b.Adds (registerHostRoot v path) := by
  have hwalk : b.Adds (walkFrom {} true v (some path)) :=
    Adds.bind (TameMachine.suspend hb _ v (some path)) fun out =>
      (adds_ofExcept _).bind fun _ => Adds.pure _
  refine adds_get.bind fun r => Adds.noted hb ?_ _ _ fun outcome => by
    cases outcome <;> exact Adds.pure _
  exact hwalk.bind fun _ => adds_get.bind fun _ => Adds.pure _

end Suspending

end Stasis.Base
