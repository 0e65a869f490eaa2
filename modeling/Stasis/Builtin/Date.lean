import Stasis.Builtin.Invocation

/-!
# Functions of dates

A date is a time: whole milliseconds, or no number. What the present time is, is for whoever drives
the realm to say.

* `applyDate`: the functions of `Date`.
-/

namespace Stasis

variable [Machine]

/-- The time that is given, or the present one. -/
def timeArgument (c : Invocation) : Run Float := do
  match c.args with
  | [] => return (← get).now
  | v :: _ =>
    let x ← toNumber v
    return if x.isFinite then Number.truncated x else 0 / 0

/-- Calls a function of `Date`. -/
def applyDate (op : DateNative) (c : Invocation) : Run Value := do
  match op with
  | .construct =>
    let time ← timeArgument c
    if c.newTarget.isNone then
      return .text ("Date(" ++ Number.scriptText (← get).now ++ ")")
    return .object (← allocate (some (← prototypeFrom c.newTarget (← get).known.date)) (.date time))
  | .now => return .number (← get).now
  | .getTime =>
    let refuse : Run Value := throwType "this is not a Date object."
    match c.this with
    | .object id =>
      match ← kindOf id with
      | .date time => return .number time
      | _ => refuse
    | _ => refuse

end Stasis
