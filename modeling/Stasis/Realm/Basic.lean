import Stasis.Config
import Stasis.Envelope.ObjectType
import Stasis.Error
import Stasis.Event
import Stasis.Heap.Symbols
import Stasis.HostPath
import Stasis.Realm.Scope
import Stasis.Recorded
import Stasis.References

/-!
# Realms

A realm is a world of its own: objects, symbols, variables, and what is known of them.

* `Realm`: the state of a realm.
* `Run`: an action in a realm, with a record of the realm after each change. What it has changed stays
  changed when it fails.
* `raise`, `attempt`: failing, and going on after a failure.
* `nested`: an action as deep inside calls as one more call.
-/

namespace Stasis

/-- The objects that a realm needs to know. -/
structure WellKnown where
  global : ObjectId
  object : ObjectId
  function : ObjectId
  array : ObjectId
  map : ObjectId
  set : ObjectId
  symbol : ObjectId
  date : ObjectId
  regexp : ObjectId
  promise : ObjectId
  buffer : ObjectId
  bytes : ObjectId
  number : ObjectId
  string : ObjectId
  boolean : ObjectId
  bigint : ObjectId
  /-- The prototypes of errors, by the kind of error. -/
  errors : ErrorKind → ObjectId

/-- The state of a realm. -/
structure Realm where
  store : Store
  symbols : Symbols
  environments : Environments
  /-- The prototypes of built-in objects, and the global object. -/
  known : WellKnown
  /-- The environment of global variables. -/
  globalEnv : EnvId
  /-- The environment of the variables that scripts declare with `let`, `const` and `class`. -/
  scriptEnv : EnvId
  registry : Registry := {}
  hostPaths : HostPaths := {}
  references : References := {}
  scopes : Array ScopeTable := #[]
  /-- Open sessions; each began while the one before it was open. -/
  sessions : Array Session := #[]
  objectTypes : List ObjectType := ObjectType.all
  config : Config
  events : EventLog
  /-- Calls that are running. -/
  depth : Nat := 0
  console : Array String := #[]
  /-- The time that scripts take for the present one. -/
  now : Float := 0

/-- Why an action does not end with a value. -/
inductive Fault where
  | error (cause : EngineError)
  /-- The bound on the work was too low to tell. -/
  | outOfFuel

/-- An action in a realm. -/
abbrev Run (α : Type) := ExceptT Fault (Recorded Realm) α

/-- Fails. -/
def raise {α : Type} (cause : EngineError) : Run α := throw (.error cause)

/-- Runs an action and tells how it failed. -/
def attempt {α : Type} (action : Run α) : Run (Except EngineError α) :=
  tryCatch (do return .ok (← action)) fun
    | .error cause => pure (.error cause)
    | .outOfFuel => throw .outOfFuel

/-- The value, or the failure. -/
def ofExcept {α : Type} : Except EngineError α → Run α
  | .ok a => pure a
  | .error cause => raise cause

/-- Reads the store. -/
def ofStore {α : Type} (read : Store → Except HeapError α) : Run α := do
  match read (← get).store with
  | .ok a => pure a
  | .error cause => raise (.heap cause)

/-- Changes the store, if that succeeds. -/
def changeStore {α : Type} (change : Store → Except HeapError (Store × α)) : Run α := do
  match change (← get).store with
  | .ok (store, a) => do
    modify fun r => { r with store }
    pure a
  | .error cause => raise (.heap cause)

/-- Adds an object. -/
def allocate (prototype : Option ObjectId) (kind : Kind) : Run ObjectId :=
  modifyGet fun r =>
    let (id, store) := r.store.alloc prototype kind
    (id, { r with store })

/-- An object. -/
def objectAt (id : ObjectId) : Run Object := ofStore fun s => s.get id

/-- What an object holds besides properties. -/
def kindOf (id : ObjectId) : Run Kind := do return (← objectAt id).kind

/-- Replaces what an object holds besides properties. -/
def setKind (id : ObjectId) (kind : Kind) : Run Unit :=
  changeStore fun s => do return (← s.modify id fun o => { o with kind }, ())

/-- Defines an own property; the answer tells whether that was allowed. -/
def define (id : ObjectId) (key : Key) (d : Descriptor) : Run Bool :=
  changeStore fun s => s.define id key d

/-- Notes an event. -/
def note (component event outcome errorCode detail : String) : Run Unit :=
  modify fun r => { r with events := r.events.push component event outcome errorCode detail }

/-- Runs an action and notes how it ended. The detail of a failure ends with its wording. -/
def noted {α : Type} (component event : String) (detail : Except EngineError α → Run String)
    (action : Run α) : Run α := do
  let outcome ← attempt action
  let detail ← detail outcome
  match outcome with
  | .ok _ => note component event outcomeAllow noErrorCode detail
  | .error cause =>
    note component event outcomeDeny cause.code (detail ++ ": " ++ cause.message)
  ofExcept outcome

/-- Runs an action as a call inside those that are running. Too deep a call fails. The call is over
when the action has ended, be it with a value or with a failure. -/
def nested {α : Type} (action : Run α) : Run α := do
  let max := (← get).config.maxCallDepth
  if max ≤ (← get).depth then raise (.callDepth max)
  modify fun r => { r with depth := r.depth + 1 }
  let outcome ← attempt action
  modify fun r => { r with depth := r.depth - 1 }
  ofExcept outcome

/-- Repeats an action, each time with the state that the last one left, until it gives an
answer. -/
def iterate {σ α : Type} (action : σ → Run (σ ⊕ α)) : Nat → σ → Run α
  | 0, _ => throw .outOfFuel
  | n + 1, s => do
    match ← action s with
    | .inl s => iterate action n s
    | .inr a => pure a

end Stasis
