import Stasis.Realm.Display

/-!
# Throwing

* `throwNew`, `throwType`, …: throwing a new error object.
* `throwValue`: throwing any value.
* `caughtValue`: the value that a script catches for a failure of the engine.
-/

namespace Stasis

/-- A new error object with its message and a stack. -/
def newError (kind : ErrorKind) (message : String) : Run ObjectId := do
  let id ← allocate (some ((← get).known.errors kind)) .error
  let _ ← define id (.text "message") (.hidden (.text message))
  let stack := kind.name ++ ": " ++ message ++ "\n    at <script>"
  let _ ← define id (.text "stack") (.hidden (.text stack))
  return id

/-- Throws a new error object. -/
def throwNew {α : Type} (kind : ErrorKind) (message : String) : Run α := do
  let id ← newError kind message
  raise (.thrown (.object id) (kind.name ++ ": " ++ message))

/-- Throws a type error. -/
def throwType {α : Type} (message : String) : Run α := throwNew .typeError message

/-- Throws a reference error. -/
def throwReference {α : Type} (message : String) : Run α := throwNew .referenceError message

/-- Throws a range error. -/
def throwRange {α : Type} (message : String) : Run α := throwNew .rangeError message

/-- Throws a syntax error. -/
def throwSyntax {α : Type} (message : String) : Run α := throwNew .syntaxError message

/-- Throws a value. -/
def throwValue {α : Type} (v : Value) : Run α := do
  match (← get).describe? v with
  | some message => raise (.thrown v message)
  | none => throw .outOfFuel

/-- The value that a script catches for a failure. -/
def caughtValue (cause : EngineError) : Run Value := do
  match cause with
  | .thrown v _ => return v
  | .callDepth max =>
    let message := "Maximum call stack size exceeded (" ++ toString max ++ ")"
    return .object (← newError .rangeError message)
  | .heap inner => return .object (← newError .typeError inner.message)
  | other => return .object (← newError .error (other.code ++ ": " ++ other.message))

/-- Refuses to make more elements or bytes than the configuration allows. -/
def checkSize (size : Nat) (what : String) : Run Nat := do
  let limit := (← get).config.maxArrayLength
  if limit < size then
    throwRange ("Invalid " ++ what ++ ": " ++ toString size ++ " exceeds the limit of "
      ++ toString limit)
  return size

end Stasis
