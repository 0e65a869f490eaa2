import Stasis.Builtin.Invocation
import Stasis.Suspend

/-!
# Functions of functions

* `functionSource`: the text of a function: its source where one is recorded.
* `applyFunction`: the functions of `Function`.
-/

namespace Stasis

/-- The text of a function. -/
def functionSource (v : Value) : Run String := do
  match ← functionOf? v with
  | none => throwType "Function.prototype.toString requires that 'this' be a Function"
  | some id =>
    match (← get).registry.get? id with
    | some (.source _ text) => return text
    | _ => return "function " ++ (← functionName id) ++ "() \x7b [native code] \x7d"

variable [Machine]

/-- The arguments that a list holds. -/
def listedArguments (v : Value) : Run (List Value) := do
  match v with
  | .undefined | .null => return []
  | .object id => arrayItems id
  | _ => throwType "CreateListFromArrayLike called on non-object"

/-- Calls a function of `Function`. -/
def applyFunction (op : FunctionNative) (c : Invocation) : Run Value := do
  match op with
  | .construct => throwNew .error "Function constructor is not supported"
  | .call => call c.this (c.arg 0) c.args.tail
  | .apply => call c.this (c.arg 0) (← listedArguments (c.arg 1))
  | .toString => return .text (← functionSource c.this)

end Stasis
