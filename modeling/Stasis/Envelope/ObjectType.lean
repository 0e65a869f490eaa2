import Stasis.Heap.Object

/-!
# Types of entries

An object that holds more than properties has an entry with a type and a payload.

* `ObjectType`: the types.
* `ObjectType.claims`: the kind of objects that a type is for.
* `ObjectType.only?`: the single type of a name in a list of types.
-/

namespace Stasis

/-- What an object holds besides properties, as an envelope names it. -/
inductive ObjectType where
  | classPrototype
  | function
  | array
  | map
  | set
  | wrapper
  | regexp
  | error
  | promise
  | date
  | buffer
  | bytes
deriving DecidableEq, Repr

namespace ObjectType

/-- Every type, in the order in which they are asked. -/
def all : List ObjectType :=
  [classPrototype, function, array, map, set, wrapper, regexp, error, promise, date, buffer, bytes]

/-- The name of a type in envelopes. -/
def name : ObjectType → String
  | classPrototype => "class-prototype"
  | function => "function"
  | array => "array"
  | map => "map"
  | set => "set"
  | wrapper => "primitive-wrapper"
  | regexp => "regexp"
  | error => "error"
  | promise => "promise"
  | date => "date"
  | buffer => "array-buffer"
  | bytes => "uint8-array"

/-- The type is for objects of this kind. Whether an object is the prototype of a class does not
show in its kind. -/
def claims : ObjectType → Kind → Bool
  | function, .function _ | array, .array | map, .map _ | set, .set _ | wrapper, .wrapper _
  | regexp, .regexp .. | error, .error | promise, .promise _ | date, .date _ | buffer, .buffer _
  | bytes, .bytes .. => true
  | _, _ => false

end ObjectType

end Stasis
