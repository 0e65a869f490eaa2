import Stasis.Envelope.Entry
import Stasis.Realm.Environment
import Stasis.Table

/-!
# Scope tables and sessions

A function that is resumed finds the values of its captured names in a scope table. While the
envelope is still being read, an entry of the table may be pending: its value is known to the
session that reads the envelope.

* `ScopeTable`: the captured names of one function.
* `Session`: what has been made of an envelope so far.
-/

namespace Stasis

/-- The value of a captured name. -/
inductive ScopeEntry where
  | resolved (value : Value)
  /-- Still to be made by the session of the table. -/
  | pending (value : Tagged)

/-- The number of an open session: its place on the stack. -/
abbrev SessionId := Nat

/-- The captured names of one function. -/
structure ScopeTable where
  entries : Table String ScopeEntry := {}
  /-- The session that makes pending values. -/
  session : Option SessionId := none

/-- What has been made of an envelope so far. -/
structure Session where
  entries : Table String Entry
  /-- Objects that have been made, in the order in which they were. -/
  made : Table String Value := {}
  /-- Objects that are being made. -/
  unfinished : List String := []

end Stasis
