import Stasis.Heap.Value
import Stasis.Table
import Stasis.Text.Quoted

/-!
# Host paths

Objects of the host are not suspended; they go by an expression that finds them again. The
expression of an object is composed while it is reached from a root.

* `PathStep.apply`: the expression of what is one step away.
* `HostPaths.record`: gives an object its path; the first one stays.
-/

namespace Stasis

/-- How one value is reached from another. -/
inductive PathStep where
  | property (key : String)
  | symbolProperty (key : String)
  | getter (key : String)
  | setter (key : String)
  | prototype
  | wrappedValue
  | setElement (index : Nat)
  /-- No expression says how. -/
  | unknown
deriving DecidableEq, Repr

/-- The expression of what is one step behind the expression of something. -/
def PathStep.compose (parent : String) : PathStep → Option String
  | property key => some (parent ++ "[" ++ Text.quote key ++ "]")
  | symbolProperty key => some (parent ++ "[Symbol.for(" ++ Text.quote key ++ ")]")
  | getter key =>
    some ("Object.getOwnPropertyDescriptor(" ++ parent ++ ", " ++ Text.quote key ++ ").get")
  | setter key =>
    some ("Object.getOwnPropertyDescriptor(" ++ parent ++ ", " ++ Text.quote key ++ ").set")
  | prototype => some ("Object.getPrototypeOf(" ++ parent ++ ")")
  | wrappedValue => some (parent ++ ".valueOf()")
  | setElement index => some ("[..." ++ parent ++ ".values()][" ++ toString index ++ "]")
  | unknown => none

/-- The path one step further; there is none behind an object without one. -/
def PathStep.apply (step : PathStep) (parent : Option String) : Option String :=
  parent.bind step.compose

/-- The paths of objects. -/
structure HostPaths where
  paths : Table ObjectId String := {}

namespace HostPaths

variable (h : HostPaths)

/-- Gives an object its path unless it has one; the flag tells whether it was new. -/
def record (id : ObjectId) (path : String) : HostPaths × Bool :=
  if h.paths.contains id then (h, false) else (⟨h.paths.insert id path⟩, true)

/-- The path of an object. -/
def pathOf? (id : ObjectId) : Option String := h.paths.find? id

/-- The object has a path. -/
def contains (id : ObjectId) : Bool := h.paths.contains id

end HostPaths

end Stasis
