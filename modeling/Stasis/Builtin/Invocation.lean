import Stasis.Realm.Change

/-!
# Invocations of built-in functions

* `Invocation`: how a built-in function is called.
* `Invocation.arg`: an argument; those that are not given are `undefined`.
-/

namespace Stasis

/-- How a built-in function is called. -/
structure Invocation where
  this : Value
  args : List Value
  /-- The constructor behind `new`, where there is one. -/
  newTarget : Option ObjectId
  /-- What the function carries with it. -/
  slot : Option Value

/-- An argument. -/
def Invocation.arg (c : Invocation) (index : Nat) : Value := (c.args[index]?).getD .undefined

/-- A value that is a function. -/
def functionOf? (v : Value) : Run (Option ObjectId) := do
  match v with
  | .object id => return if (← get).store.isFunction id then some id else none
  | _ => return none

/-- Refuses what cannot be called. -/
def throwNotFunction {α : Type} (v : Value) : Run α := do
  throwType ((← display v) ++ " is not a function")

end Stasis
