import Stasis.Heap.Value
import Stasis.Table
import Stasis.Text.Quoted

/-!
# Registered functions

A function can be suspended only if it is registered, with its source and with where the values of
its captured names are to be had. A registration is never replaced.

* `Registration`: what is recorded of a function.
* `Registry.register`: records it, unless there is a record.
* `memberExpression`, `accessorExpression`: how a member is reached from its class.
-/

namespace Stasis

/-- The number of a scope table. -/
abbrev TableId := Nat

/-- Where the values of captured names come from. -/
inductive ScopeSource where
  /-- A function that returns an object with the present values. -/
  | thunk (function : ObjectId)
  /-- The scope table of a function that has been resumed. -/
  | table (id : TableId)
deriving DecidableEq, Repr

/-- What is recorded of a function. -/
inductive Registration where
  | source (scope : ScopeSource) (text : String)
  /-- A member of a class, which is made again together with the class. -/
  | member (owner : ObjectId) (expression : String)
deriving DecidableEq, Repr

/-- The word for a kind of registration. -/
def Registration.kind : Registration → String
  | source .. => "syntactic"
  | member .. => "class"

/-- The name of the class in the expressions of its members. -/
def classPlaceholder : String := "C"

/-- The object that holds static members, or the others. -/
def memberHolder (static : Bool) : String :=
  if static then classPlaceholder else classPlaceholder ++ ".prototype"

/-- How a method is reached from its class. -/
def memberExpression (key : String) (static : Bool) : String :=
  memberHolder static ++ "[" ++ Text.quote key ++ "]"

/-- How half of an accessor is reached from its class. -/
def accessorExpression (key : String) (static getter : Bool) : String :=
  "Object.getOwnPropertyDescriptor(" ++ memberHolder static ++ ", " ++ Text.quote key ++ ")."
    ++ (if getter then "get" else "set")

/-- Registrations by function, and classes by their prototype. -/
structure Registry where
  records : Table ObjectId Registration := {}
  classes : Table ObjectId ObjectId := {}

namespace Registry

variable (r : Registry)

/-- Records a function unless it is recorded; the flag tells whether it was new. -/
def register (function : ObjectId) (record : Registration) : Registry × Bool :=
  if r.records.contains function then (r, false)
  else ({ r with records := r.records.insert function record }, true)

/-- What is recorded of a function. -/
def get? (function : ObjectId) : Option Registration := r.records.find? function

/-- Records the class of a prototype; the first one stays. -/
def registerPrototype (prototype class_ : ObjectId) : Registry :=
  { r with classes := r.classes.insertNew prototype class_ }

/-- The class of a prototype. -/
def classOf? (prototype : ObjectId) : Option ObjectId := r.classes.find? prototype

end Registry

end Stasis
