import Stasis.Heap.Descriptor
import Stasis.Heap.Key
import Stasis.Heap.Native
import Stasis.Script.Tree
import Stasis.Table

/-!
# Objects

An object has a prototype, a table of own properties, a flag that lets it grow, and what its kind
holds besides.

* `Object.define`: gives an own property a descriptor, if the property and the object allow it.
  Arrays keep their length in step.
* `Object.delete`: takes an own property out, if it is configurable.
* `Object.ownKeys`: indices in numeric order, then texts, then symbols.
* `Object.frozen`, `Object.sealed`: the two levels of integrity.
-/

namespace Stasis

/-- The number of an environment of variables. -/
abbrev EnvId := Nat

/-- The state of a promise. -/
inductive PromiseState where
  | pending
  | fulfilled (value : Value)
  | rejected (reason : Value)
deriving Repr

/-- The bytes of a buffer. -/
structure Buffer where
  bytes : ByteArray := ByteArray.empty
  /-- The largest length that the buffer can be resized to, if it can. -/
  maxLength : Option Nat := none
  detached : Bool := false

/-- An instance field of a class, with its key evaluated. -/
structure FieldInit where
  key : Key
  /-- The place of the field among the members of its class. -/
  member : Nat

/-- What a function does when it is called. -/
inductive Behavior where
  /-- A function of a script, in the environment where it was made. `super` looks behind the
  home object. -/
  | script (node : Script.FunctionDef) (env : EnvId) (home : Option ObjectId)
  | «class» (node : Script.ClassDef) (env : EnvId) (fields : List FieldInit) (derived : Bool)
  | native (id : Native) (slot : Option Value)

/-- What an object holds besides its properties. -/
inductive Kind where
  | ordinary
  | array
  | function (behavior : Behavior)
  | map (entries : Table CollectionKey Value)
  | set (elements : Table CollectionKey Unit)
  | date (time : Float)
  | regexp (source flags : String)
  | error
  | wrapper (value : Value)
  | buffer (content : Buffer)
  /-- A window on the bytes of a buffer. -/
  | bytes (buffer : ObjectId) (offset length : Nat)
  | promise (state : PromiseState)

/-- The object can be called. -/
def Kind.isFunction : Kind → Bool
  | function _ => true
  | _ => false

/-- The object is an array. -/
def Kind.isArray : Kind → Bool
  | array => true
  | _ => false

/-- The name of a kind. -/
def Kind.label : Kind → String
  | ordinary => "Object"
  | array => "Array"
  | function _ => "Function"
  | map _ => "Map"
  | set _ => "Set"
  | date _ => "Date"
  | regexp .. => "RegExp"
  | error => "Error"
  | wrapper _ => "Wrapper"
  | buffer _ => "ArrayBuffer"
  | bytes .. => "Uint8Array"
  | promise _ => "Promise"

/-- An object. -/
structure Object where
  prototype : Option ObjectId
  /-- New properties can be added. -/
  extensible : Bool := true
  properties : Table Key Descriptor := {}
  kind : Kind

namespace Object

variable (o : Object)

/-- An own property. -/
def own? (key : Key) : Option Descriptor := o.properties.find? key

/-- The number that a double becomes as an array length: cut to an integer and kept in 32 bits. -/
def toLength (x : Float) : Nat := (Number.truncate 0 0xFFFFFFFF x).toNat

/-- The length of an array; zero where there is none. -/
def arrayLength : Nat :=
  match (o.own? .length).bind (·.value?) with
  | some (.number x) => toLength x
  | _ => 0

/-- Sets the length of an array, if it can be written to; the flag tells whether it could. -/
def setArrayLength (n : Nat) : Object × Bool :=
  match o.own? .length with
  | some (.data _ true e c) =>
    ({ o with properties :=
        o.properties.insert .length (.data (.number (Number.ofInt n)) true e c) }, true)
  | _ => (o, false)

/-- Takes out the configurable elements from index `n` on. -/
def truncateArray (n : Nat) : Object :=
  { o with properties := o.properties.filter fun key d =>
      match key.arrayIndex? with
      | some index => decide (index < n) || !d.isConfigurable
      | none => true }

/-- What an array does before an own property is defined: an index beyond its length makes it
longer, a shorter length takes elements out. The flag tells whether the property can be defined. -/
def prepareArray (key : Key) (d : Descriptor) : Object × Bool :=
  match key.arrayIndex? with
  | some index => if o.arrayLength ≤ index then o.setArrayLength (index + 1) else (o, true)
  | none =>
    match d.value? with
    | some (.number x) =>
      if key = .length then (o.truncateArray (toLength x), true) else (o, true)
    | _ => (o, true)

/-- The property may be defined so: the present one allows it, or a new one can be added. -/
def allows (key : Key) (d : Descriptor) : Bool :=
  match o.own? key with
  | some current => current.allows d
  | none => o.extensible

/-- Defines an own property, if that is allowed; the flag tells whether it was. -/
def define (key : Key) (d : Descriptor) : Object × Bool :=
  if o.allows key d then
    let (o', ready) := if o.kind.isArray then o.prepareArray key d else (o, true)
    if ready then ({ o' with properties := o'.properties.insert key d }, true) else (o', false)
  else (o, false)

/-- Takes an own property out unless it is not configurable; the flag tells whether it is gone. -/
def delete (key : Key) : Object × Bool :=
  match o.own? key with
  | none => (o, true)
  | some d =>
    if d.isConfigurable then ({ o with properties := o.properties.erase key }, true)
    else (o, false)

/-- The key is a text. -/
def isTextKey : Key → Bool
  | .text _ => true
  | .symbol _ => false

/-- The keys that are indices, in numeric order. -/
def indexKeys (keys : List Key) : List Key :=
  ((keys.filterMap fun k => k.arrayIndex?.map fun n => (n, k)).mergeSort fun a b =>
    decide (a.1 ≤ b.1)).map Prod.snd

/-- Own keys: indices in numeric order, then texts, then symbols, both in the order in which they
were added. -/
def ownKeys : List Key :=
  let keys := o.properties.keys
  indexKeys keys
    ++ keys.filter (fun k => isTextKey k && k.arrayIndex?.isNone)
    ++ keys.filter (fun k => !isTextKey k)

/-- Own properties in the order of `ownKeys`. -/
def ownEntries : List (Key × Descriptor) :=
  o.ownKeys.filterMap fun k => (o.own? k).map fun d => (k, d)

/-- The object, never to change. -/
def frozen : Object :=
  { o with extensible := false, properties := o.properties.map Descriptor.frozen }

/-- The object with the properties that it has, never to lose or gain one. -/
def sealed : Object :=
  { o with extensible := false, properties := o.properties.map Descriptor.sealed }

/-- Nothing in the object can change. -/
def isFrozen : Bool :=
  !o.extensible && o.properties.values.all fun d => !d.isConfigurable && !d.isWritable

/-- No property can be added or removed. -/
def isSealed : Bool :=
  !o.extensible && o.properties.values.all fun d => !d.isConfigurable

end Object

end Stasis
