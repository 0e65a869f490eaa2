import Stasis.Json.Printer

/-!
# Events

A realm notes what it did, for whoever drives it.

* `EventLog.push`: notes an event. Numbers go up for as long as the log lives.
* `EventLog.drain`: takes out what has been noted.
-/

namespace Stasis

/-- The outcome of what succeeded. -/
def outcomeAllow : String := "allow"

/-- The outcome of what failed. -/
def outcomeDeny : String := "deny"

/-- The error code of what succeeded. -/
def noErrorCode : String := "none"

/-- Something that was done. -/
structure Event where
  seq : Nat
  traceId : String
  component : String
  event : String
  outcome : String
  errorCode : String
  detail : String
deriving DecidableEq, Repr

/-- The event as an interchange value. -/
def Event.toJson (e : Event) : Json :=
  .object [("seq", Json.ofNat e.seq), ("trace_id", .text e.traceId),
    ("component", .text e.component), ("event", .text e.event), ("outcome", .text e.outcome),
    ("error_code", .text e.errorCode), ("detail", .text e.detail)]

/-- Events that were noted and not yet taken. -/
structure EventLog where
  traceId : String
  events : Array Event := #[]
  next : Nat := 0

namespace EventLog

variable (l : EventLog)

/-- Notes an event. -/
def push (component event outcome errorCode detail : String) : EventLog :=
  { l with
    events := l.events.push ⟨l.next, l.traceId, component, event, outcome, errorCode, detail⟩
    next := l.next + 1 }

/-- Takes out all events. -/
def drain : List Event × EventLog :=
  (l.events.toList, { l with events := #[] })

end EventLog

end Stasis
