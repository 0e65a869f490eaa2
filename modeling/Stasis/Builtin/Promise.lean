import Stasis.Builtin.Invocation
import Stasis.Resume

/-!
# Functions of promises

A promise is settled once. One that is fulfilled with another promise takes over the state that the
other one has then.

* `settlePromise`: settles a promise that is not yet settled.
* `applyPromise`: the functions of `Promise`.
-/

namespace Stasis

/-- The state of a promise that an object is. -/
def promiseState? (v : Value) : Run (Option PromiseState) := do
  match v with
  | .object id =>
    match ← kindOf id with
    | .promise state => return some state
    | _ => return none
  | _ => return none

/-- The state that a promise takes when it is fulfilled with a value. -/
def fulfilledWith (v : Value) : Run PromiseState := do
  return (← promiseState? v).getD (.fulfilled v)

/-- Settles a promise unless it is settled. -/
def settlePromise (id : ObjectId) (state : PromiseState) : Run Unit := do
  match ← kindOf id with
  | .promise .pending => setKind id (.promise state)
  | _ => return ()

/-- A built-in function without a name, of one parameter, that carries a promise. -/
def settlingFunction (op : PromiseNative) (promise : ObjectId) : Run Value := do
  let kind : Kind := .function (.native (.promise op) (some (.object promise)))
  let id ← allocate (some (← get).known.function) kind
  let _ ← define id .length (.readonly (.number 1))
  let _ ← define id (.text "name") (.readonly (.text ""))
  return .object id

variable [Machine]

/-- A new promise, and the run of the function that settles it. -/
def constructPromise (c : Invocation) : Run Value := do
  let executor := c.arg 0
  if c.newTarget.isNone then
    throwType "Promise constructor cannot be invoked without 'new'"
  if !(← get).isCallable executor then
    throwType ("Promise resolver " ++ (← display executor) ++ " is not a function")
  let prototype ← prototypeFrom c.newTarget (← get).known.promise
  let id ← allocate (some prototype) (.promise .pending)
  let fulfil ← settlingFunction .fulfil id
  let refuse ← settlingFunction .refuse id
  match ← attempt (call executor .undefined [fulfil, refuse]) with
  | .ok _ => pure ()
  | .error cause => settlePromise id (.rejected (← caughtValue cause))
  return .object id

/-- Calls a function of `Promise`, or one that settles a promise. -/
def applyPromise (op : PromiseNative) (c : Invocation) : Run Value := do
  let v := c.arg 0
  match op with
  | .construct => constructPromise c
  | .resolve =>
    if (← promiseState? v).isSome then return v
    return .object (← newPromise (.fulfilled v))
  | .reject => return .object (← newPromise (.rejected v))
  | .fulfil =>
    match c.slot with
    | some (.object id) => settlePromise id (← fulfilledWith v)
    | _ => pure ()
    return .undefined
  | .refuse =>
    match c.slot with
    | some (.object id) => settlePromise id (.rejected v)
    | _ => pure ()
    return .undefined

end Stasis
