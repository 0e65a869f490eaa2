import Stasis.Builtin.Array
import Stasis.Builtin.Binary
import Stasis.Builtin.Collection
import Stasis.Builtin.Date
import Stasis.Builtin.Error
import Stasis.Builtin.Function
import Stasis.Builtin.Object
import Stasis.Builtin.Pattern
import Stasis.Builtin.Primitive
import Stasis.Builtin.Promise
import Stasis.Builtin.Registration

/-!
# Calling built-in functions

* `applyNative`: calls a built-in function.
-/

namespace Stasis

/-- Adds a line to the console. -/
def writeLine (args : List Value) : Run Value := do
  let line := String.intercalate " " (← args.mapM display)
  modify fun r => { r with console := r.console.push line }
  return .undefined

variable [Machine]

/-- Calls a built-in function. -/
def applyNative (id : Native) (c : Invocation) : Run Value :=
  match id with
  | .empty => return .undefined
  | .object op => applyObject op c
  | .function op => applyFunction op c
  | .array op => applyArray op c
  | .map op => applyMap op c
  | .set op => applySet op c
  | .symbol op => applySymbol op c
  | .date op => applyDate op c
  | .regexp op => applyRegExp op c
  | .error kind => constructError kind c
  | .errorToString => errorText c.this
  | .promise op => applyPromise op c
  | .buffer op => applyBuffer op c
  | .bytes op => applyBytes op c
  | .primitive op => applyPrimitive op c
  | .math op => applyMath op c
  | .json op => applyJson op c
  | .consoleLog => writeLine c.args
  | .runtime op => applyRuntime op c

end Stasis
