import Stasis.Builtin.Invocation

/-!
# Functions of errors

* `constructError`: an error with its message and a stack.
* `errorText`: an error as a text.
-/

namespace Stasis

/-- The stack of an error with a message. -/
def stackText (kind : ErrorKind) (message : String) : String :=
  let line := if message.isEmpty then kind.name else kind.name ++ ": " ++ message
  line ++ "\n    at <script>"

variable [Machine]

/-- A new error. -/
def constructError (kind : ErrorKind) (c : Invocation) : Run Value := do
  let prototype ← prototypeFrom c.newTarget ((← get).known.errors kind)
  let id ← allocate (some prototype) .error
  let message ← match c.arg 0 with
    | .undefined => pure none
    | v => do pure (some (← toText v))
  match message with
  | some message => defineOrThrow id (.text "message") (.hidden (.text message))
  | none => pure ()
  defineOrThrow id (.text "stack") (.hidden (.text (stackText kind (message.getD ""))))
  return .object id

/-- A text in a property of an error, or another one in its place. -/
def errorPart (id : ObjectId) (name fallback : String) : Run String := do
  match ← getOf id name with
  | .undefined => return fallback
  | v => toText v

/-- An error as a text: its name and its message. -/
def errorText (v : Value) : Run Value := do
  match v with
  | .object id =>
    let name ← errorPart id "name" ErrorKind.error.name
    let message ← errorPart id "message" ""
    if message.isEmpty then return .text name
    if name.isEmpty then return .text message
    return .text (name ++ ": " ++ message)
  | _ => throwType "Error.prototype.toString called on non-object"

end Stasis
