import Stasis.Builtin.Invocation

/-!
# Functions of patterns

A pattern keeps its source and its flags as texts.

* `applyRegExp`: the functions of `RegExp`.
-/

namespace Stasis

/-- The source and the flags of the pattern that an object is. -/
def patternOf? (v : Value) : Run (Option (String × String)) := do
  match v with
  | .object id =>
    match ← kindOf id with
    | .regexp source flags => return some (source, flags)
    | _ => return none
  | _ => return none

variable [Machine]

/-- The source and the flags that a value asks for. -/
def patternArgument (v : Value) : Run (String × String) := do
  match v, ← patternOf? v with
  | .undefined, _ => return ("(?:)", "")
  | _, some pattern => return pattern
  | _, none => return (← toText v, "")

/-- A half of the pattern that a function is called on. -/
def patternReceiver (v : Value) (half : String × String → String) : Run Value := do
  match ← patternOf? v with
  | some pattern => return .text (half pattern)
  | none => throwType "RegExp.prototype getter called on incompatible receiver"

/-- Calls a function of `RegExp`. -/
def applyRegExp (op : RegExpNative) (c : Invocation) : Run Value := do
  match op with
  | .construct =>
    let (source, flags) ← patternArgument (c.arg 0)
    let flags ← match c.arg 1 with
      | .undefined => pure flags
      | v => toText v
    let prototype ← prototypeFrom c.newTarget (← get).known.regexp
    return .object (← allocate (some prototype) (.regexp source flags))
  | .source => patternReceiver c.this Prod.fst
  | .flags => patternReceiver c.this Prod.snd

end Stasis
