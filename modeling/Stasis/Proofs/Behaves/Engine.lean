import Mathlib
import Stasis.Proofs.Behaves.Builtin
import Stasis.Proofs.Behaves.Evaluate
import Stasis.Proofs.Copy

/-!
# The engine behaves

* `behaves_callValue`, `behaves_constructValue`: calling any function, and making an object with any
  constructor.
* `safeMachine_engine`: every request behaves, however deep the engine may go.
* `behaves_evalScript`, `behaves_evalInstrumented`: running a script.
* `serialize_isClosed`: what `serialize` answers, in any realm with the built-in types.
-/

namespace Stasis

section Calls

@[grind ←]
theorem behaves_behaviorOf? (v : Value) : Behaves (behaviorOf? v) := by
  unfold behaviorOf?
  grind -linarith

variable [Machine] [SafeMachine]

theorem behaves_callValue (f this : Value) (args : List Value) :
    Behaves (callValue f this args) := by
  unfold callValue
  refine (behaves_behaviorOf? f).bind fun found => ?_
  split
  · exact behaves_throwNotFunction f
  · refine Behaves.nested ?_
    grind -linarith

@[grind ←]
theorem behaves_constructScript (id : ObjectId) (node : Script.FunctionDef) (env : EnvId)
    (home : Option ObjectId) (args : List Value) (newTarget : ObjectId) :
    Behaves (constructScript id node env home args newTarget) := by
  unfold constructScript
  grind -linarith

theorem behaves_constructValue (f : Value) (args : List Value) (newTarget : ObjectId) :
    Behaves (constructValue f args newTarget) := by
  unfold constructValue
  refine (behaves_behaviorOf? f).bind fun found => behaves_get.bind fun r => ?_
  split
  · refine Behaves.nested ?_
    grind -linarith
  · grind -linarith

end Calls

/-- **Every request behaves**, and values are written as a walk writes them, however deep requests go
inside each other. -/
theorem safeMachine_perform (depth : ℕ) :
    ∀ rounds : ℕ, @SafeMachine ⟨rounds, fun request => perform depth request⟩ := by
  induction depth with
  | zero =>
    refine fun rounds => @SafeMachine.mk ⟨rounds, fun request => perform 0 request⟩ ?_ ?_
    · exact fun _ => behaves_outOfFuel
    · exact fun _ _ _ => ends_throw .outOfFuel trivial _
  | succ depth ih =>
    -- what a request asks for in turn has one level less
    let inner : Machine := ⟨depth, fun request => perform depth request⟩
    have hinner : SafeMachine := ih depth
    refine fun rounds => @SafeMachine.mk ⟨rounds, fun request => perform (depth + 1) request⟩ ?_ ?_
    · intro α request
      cases request with
      | eval e name env => exact behaves_evalExpr e name env
      | exec s env => exact behaves_execStatement s env
      | call function this args => exact behaves_callValue function this args
      | construct function args newTarget => exact behaves_constructValue function args newTarget
      | suspend p v path => exact behaves_suspendValue p v path
      | resolve session t => exact behaves_resolveTagged session t
      | toJson v seen => exact behaves_interchangeForm v seen
    · exact ends_suspendValue

instance safeMachine_engine (depth : ℕ) : @SafeMachine (engine depth) :=
  safeMachine_perform depth depth

section Scripts

variable [Machine] [SafeMachine]

/-- **Running any text as a script behaves.** -/
theorem behaves_evalScript (source : String) : Behaves (evalScript source) := by
  unfold evalScript
  split
  · exact behaves_runProgram _
  · exact behaves_raise rfl

theorem behaves_evalInstrumented (source : String) : Behaves (evalInstrumented source) := by
  unfold evalInstrumented
  refine behaves_get.bind fun r => ?_
  split
  · exact (behaves_note _ _ _ _ _).bind fun _ => behaves_evalScript _
  · exact (behaves_note _ _ _ _ _).bind fun _ => behaves_raise rfl

theorem behaves_getGlobal (name : String) : Behaves (getGlobal name) :=
  behaves_get.bind fun _ => behaves_readVariable _ name

omit [Machine] [SafeMachine] in
theorem behaves_setGlobal (name : String) (v : Value) : Behaves (setGlobal name v) :=
  behaves_get.bind fun _ => behaves_defineOrThrow _ _ rfl

end Scripts

/-! ## What serializing answers -/

/-- **Every envelope is closed, minimal and safe.** In a realm with the built-in types, whatever the
value and whatever scripts run while it is suspended: every reference in the envelope has exactly one
entry, every entry is referred to from the root, and an interchange text can hold every value. If
there is no envelope, that is for no mistake of the engine: no entry is left unfinished, nothing is
left that a text could not hold, and no type is claimed twice. -/
theorem serialize_isClosed {r : Realm} (htypes : r.objectTypes = ObjectType.all) (depth : ℕ)
    (v : Value) (path : Option String) (stop : Bool) :
    (∀ e r', Yields (@serialize (engine depth) v { path, stop }) r e r' →
      e.IsClosed ∧ e.checkSafe = .ok ()) ∧
    ∀ cause r', Raises (@serialize (engine depth) v { path, stop }) r cause r' →
      (∀ reference, cause ≠ .unresolvedPlaceholder reference) ∧
      (∀ detail, cause ≠ .residue detail) ∧ ∀ type, cause ≠ .duplicateEncoder type := by
  have hends := @ends_serialize (engine depth) (safeMachine_engine depth) v { path, stop } rfl
  refine ⟨fun e r' h => hends.of_yields htypes h, fun cause r' h => ?_⟩
  have hcause : cause.isInternal = false := hends.of_raises htypes h
  refine ⟨?_, ?_, ?_⟩ <;> rintro _ rfl <;> cases hcause

/-- An object that refers to itself, suspended. -/
theorem serialize_isClosed_knot : knotRealm.objectTypes = ObjectType.all ∧ ∃ e r',
    Yields (@serialize (engine 4) (.object 0) {}) knotRealm e r' ∧ e.IsClosed ∧
      e.checkSafe = .ok () := by
  obtain ⟨_, e, _, hy, -⟩ := yields_serialize (d := 4) knotRealm_sound knotRealm_isDataGraph
    knotRealm_keepsNumbers (by decide)
  exact ⟨rfl, e, _, hy, (serialize_isClosed rfl 4 (.object 0) none false).1 e _ hy⟩

end Stasis
