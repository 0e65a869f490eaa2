import Stasis.Heap.Object

/-!
# The store of objects

Objects refer to each other by number; the store keeps them all.

* `Store.alloc`: adds an object.
* `Store.lookup`: a property of an object or of the nearest object behind it that has it.
* `Store.setPrototype`: changes what stands behind an object, never into a cycle.
* `HeapError`: why the store refuses.
-/

namespace Stasis

/-- Why the store refuses. -/
inductive HeapError where
  | typeError (message : String)
  | notFound (id : ObjectId)
  | cycle
  | tooDeep (depth max : Nat)
deriving DecidableEq, Repr

/-- The wording of a refusal. -/
def HeapError.message : HeapError → String
  | typeError message => "TypeError: " ++ message
  | notFound id => "object#" ++ toString id ++ " not found"
  | cycle => "TypeError: prototype chain cycle detected"
  | tooDeep depth max =>
    "TypeError: prototype chain depth " ++ toString depth ++ " exceeds max " ++ toString max

/-- Chains of prototypes are followed this far. -/
def maxChainDepth : Nat := 1024

/-- All objects, by number. -/
structure Store where
  objects : Array Object := #[]

namespace Store

variable (s : Store)

/-- The number of objects. -/
def size : Nat := s.objects.size

/-- Adds an object; the answer has its number. -/
def alloc (prototype : Option ObjectId) (kind : Kind) : ObjectId × Store :=
  (s.objects.size, ⟨s.objects.push { prototype, kind }⟩)

/-- An object. -/
def get (id : ObjectId) : Except HeapError Object :=
  match s.objects[id]? with
  | some o => .ok o
  | none => .error (.notFound id)

/-- Replaces an object. -/
def set (id : ObjectId) (o : Object) : Store :=
  ⟨s.objects.setIfInBounds id o⟩

/-- The object can be called. -/
def isFunction (id : ObjectId) : Bool :=
  s.objects[id]?.any fun o => o.kind.isFunction

/-- Looks for a property from an object on, at most `steps` objects far. -/
def lookupFrom (key : Key) : Nat → ObjectId → Except HeapError (Option (ObjectId × Descriptor))
  | 0, _ => .error (.tooDeep (maxChainDepth + 1) maxChainDepth)
  | steps + 1, id => do
    let o ← s.get id
    match o.own? key, o.prototype with
    | some d, _ => return some (id, d)
    | none, some next => lookupFrom key steps next
    | none, none => return none

/-- The nearest object with the property, from an object on, and the property there. -/
def lookup (id : ObjectId) (key : Key) : Except HeapError (Option (ObjectId × Descriptor)) :=
  s.lookupFrom key (maxChainDepth + 1) id

/-- The chain from an object on ends without `target`, within `steps` objects. -/
def checkChain (target : ObjectId) : Nat → Option ObjectId → Except HeapError Unit
  | _, none => .ok ()
  | 0, some id =>
    if id = target then .error .cycle
    else .error (.tooDeep (maxChainDepth + 1) maxChainDepth)
  | steps + 1, some id =>
    if id = target then .error .cycle
    else do checkChain target steps (← s.get id).prototype

/-- Changes the prototype of an object; refused if the object cannot grow, an error if the chain
would become a cycle. -/
def setPrototype (id : ObjectId) (prototype : Option ObjectId) :
    Except HeapError (Store × Bool) := do
  let o ← s.get id
  if o.prototype = prototype then return (s, true)
  if !o.extensible then return (s, false)
  s.checkChain id (maxChainDepth + 1) prototype
  return (s.set id { o with prototype }, true)

/-- Changes an object. -/
def modify (id : ObjectId) (f : Object → Object) : Except HeapError Store := do
  return s.set id (f (← s.get id))

/-- Defines an own property of an object; the flag tells whether that was allowed. -/
def define (id : ObjectId) (key : Key) (d : Descriptor) : Except HeapError (Store × Bool) := do
  let (o, done) := (← s.get id).define key d
  return (s.set id o, done)

/-- Takes an own property out of an object; the flag tells whether it is gone. -/
def delete (id : ObjectId) (key : Key) : Except HeapError (Store × Bool) := do
  let (o, done) := (← s.get id).delete key
  return (s.set id o, done)

end Store

end Stasis
