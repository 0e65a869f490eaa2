import Stasis.Heap.Store
import Stasis.Script.Error
import Stasis.Text.Shown

/-!
# Failures of the engine

* `EngineError`: the causes.
* `EngineError.code`, `EngineError.category`: a stable code, and the broad kind of a cause.
* `EngineError.message`: its wording.
-/

namespace Stasis

/-- The broad kinds of failures. -/
inductive ErrorCategory where
  | registration
  | envelopeCorruption
  | configuration
  | runtime
deriving DecidableEq, Repr

/-- The name of a kind of failure. -/
def ErrorCategory.name : ErrorCategory → String
  | registration => "Registration"
  | envelopeCorruption => "EnvelopeCorruption"
  | configuration => "Configuration"
  | runtime => "Runtime"

/-- Why the engine fails. -/
inductive EngineError where
  | unregistered (reference description : String)
  | ambiguousEncoder (reference : String) (candidates : List String)
  | duplicateEncoder (objectType : String)
  | unresolvedPlaceholder (reference : String)
  | residue (detail : String)
  | missingEntry (reference : String)
  | unknownType (objectType : String)
  | invalidEnvelope (detail : String)
  | mismatch (detail : String)
  | source (error : Script.SourceError)
  | thrown (value : Value) (message : String)
  | heap (error : HeapError)
  | callDepth (max : Nat)

namespace EngineError

/-- The stable code of a failure. -/
def code : EngineError → String
  | unregistered .. => "FE-SER-1001"
  | ambiguousEncoder .. => "FE-SER-1002"
  | duplicateEncoder _ => "FE-SER-1003"
  | unresolvedPlaceholder _ => "FE-SER-1004"
  | residue _ => "FE-SER-1005"
  | missingEntry _ => "FE-SER-2001"
  | unknownType _ => "FE-SER-2002"
  | invalidEnvelope _ => "FE-SER-2003"
  | mismatch _ => "FE-SER-3001"
  | source _ => "FE-SER-4001"
  | thrown .. => "FE-SER-5001"
  | heap _ => "FE-SER-5002"
  | callDepth _ => "FE-SER-5003"

/-- The broad kind of a failure. -/
def category : EngineError → ErrorCategory
  | unregistered .. => .registration
  | missingEntry _ | unknownType _ | invalidEnvelope _ => .envelopeCorruption
  | ambiguousEncoder .. | duplicateEncoder _ | unresolvedPlaceholder _ | residue _ =>
    .configuration
  | mismatch _ | source _ | thrown .. | heap _ | callDepth _ => .runtime

/-- The wording of a failure. -/
def message : EngineError → String
  | unregistered _ description =>
    "cannot serialize a closure that was never instrumented: " ++ description
  | ambiguousEncoder reference candidates =>
    "more than one encoder claims object `" ++ reference ++ "`: " ++ Text.shownList candidates
  | duplicateEncoder objectType =>
    "more than one encoder registered for object type `" ++ objectType ++ "`"
  | unresolvedPlaceholder reference =>
    "heap entry `" ++ reference ++ "` is still a circular-reference placeholder"
  | residue detail => "envelope is not JSON-safe: " ++ detail
  | missingEntry reference =>
    "envelope invalid: reference `" ++ reference ++ "` has no heap entry"
  | unknownType objectType => "envelope invalid: unknown object type `" ++ objectType ++ "`"
  | invalidEnvelope detail => "envelope invalid: " ++ detail
  | mismatch detail => "value did not survive a serialization round trip: " ++ detail
  | source error => error.describe
  | thrown _ message => "uncaught " ++ message
  | heap error => "object model: " ++ error.message
  | callDepth max => "maximum call depth " ++ toString max ++ " exceeded"

/-- The value that a script has thrown. -/
def thrown? : EngineError → Option Value
  | thrown value _ => some value
  | _ => none

end EngineError

end Stasis
