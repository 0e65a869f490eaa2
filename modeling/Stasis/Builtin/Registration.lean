import Stasis.Builtin.Interchange
import Stasis.RoundTrip

/-!
# Functions of the runtime

Instrumented scripts record their functions with the runtime, and may suspend and resume values.

* `applyRuntime`: the functions of the runtime object.
-/

namespace Stasis

/-- The name of the global object that scripts reach the runtime by. -/
def runtimeName : String := "__SerializableJs"

variable [Machine]

/-- The scope and the source that options give, for the function of a name. -/
def registrationOf (options : Value) (name : String) : Run Registration := do
  if !options.isObject then throwType (name ++ ": options must be an object")
  match ← functionOf? (← getNamed options "scope") with
  | none => throwType (name ++ ": scope must be a function")
  | some scope => return .source (.thunk scope) (← toText (← getNamed options "source"))

/-- Records a function, and the members of a class. -/
def registerCallable (name : String) (class_ : Bool) (c : Invocation) : Run Value := do
  let v := c.arg 0
  match ← functionOf? v with
  | none => throwType (name ++ ": expected a function, got " ++ (← display v))
  | some id =>
    registerFunction id (← registrationOf (c.arg 1) name)
    if class_ then registerClassMembers id
    return v

/-- Records one half of an accessor of an object. -/
def registerHalf (id : ObjectId) (item : Value) : Run Unit := do
  let key ← toKey (← getNamed item "key")
  let getter := (← toText (← getNamed item "kind")) == "get"
  let record ← registrationOf item "registerAccessors"
  match (← objectAt id).own? key with
  | some (.accessor g s ..) =>
    match if getter then g else s with
    | some f => registerFunction f record
    | none => return ()
  | _ => return ()

/-- Records the accessors of an object that a list names. -/
def registerAccessors (c : Invocation) : Run Value := do
  let v := c.arg 0
  match v with
  | .object id =>
    let items ← match c.arg 1 with
      | .object list => arrayItems list
      | _ => pure []
    items.forM (registerHalf id)
    return v
  | _ => throwType "registerAccessors: expected an object"

/-- How options ask for a value to be suspended. -/
def suspendOptions (options : Value) : Run SuspendOptions := do
  if !options.isObject then return {}
  let path ← match ← getNamed options "hostObjectPath" with
    | .undefined | .null => pure none
    | v => do pure (some (← toText v))
  let stop ← getNamed options "stopIfUnreachableFromHost"
  return { path, stop := stop.isTruthy }

/-- The envelope that a script gives, as a text or as an object. -/
def envelopeArgument (v : Value) : Run Envelope := do
  match v with
  | .text s => ofExcept (Envelope.parse s)
  | _ => ofExcept (Envelope.ofJson ((← jsonOf v []).getD .null))

/-- Calls a function of the runtime. -/
def applyRuntime (op : RuntimeNative) (c : Invocation) : Run Value := do
  match op with
  | .registerFunction => registerCallable "registerFunction" false c
  | .registerClass => registerCallable "registerClass" true c
  | .registerAccessors => registerAccessors c
  | .registerHostObject =>
    let _ ← registerHostRoot (c.arg 0) (← toText (c.arg 1))
    return c.arg 0
  | .ensureSerializable => ensureSerializable (c.arg 0)
  | .serialize =>
    let e ← serialize (c.arg 0) (← suspendOptions (c.arg 1))
    valueOfJson e.toJson
  | .deserialize => deserialize (← envelopeArgument (c.arg 0))

end Stasis
