import Stasis.Heap.Value

/-!
# Property descriptors

* `Descriptor`: a stored value, or a pair of accessors, with its flags.
* `Descriptor.frozen`, `Descriptor.sealed`: the same with flags taken away.
* `Descriptor.sameAs`: equality, with values compared by `Value.sameValue`.
-/

namespace Stasis

/-- How a property answers. -/
inductive Descriptor where
  | data (value : Value) (writable enumerable configurable : Bool)
  | accessor (get set : Option ObjectId) (enumerable configurable : Bool)
deriving Repr

namespace Descriptor

/-- A property made by assignment. -/
def plain (value : Value) : Descriptor := .data value true true true

/-- The methods of built-in objects and the members of classes do not show up in enumerations. -/
def hidden (value : Value) : Descriptor := .data value true false true

/-- The name and the length of a function cannot be assigned to. -/
def readonly (value : Value) : Descriptor := .data value false false true

/-- A property that can never change. -/
def constant (value : Value) : Descriptor := .data value false false false

/-- The property can be removed and redefined at will. -/
def isConfigurable : Descriptor → Bool
  | data _ _ _ c => c
  | accessor _ _ _ c => c

/-- The property shows up in enumerations. -/
def isEnumerable : Descriptor → Bool
  | data _ _ e _ => e
  | accessor _ _ e _ => e

/-- The property stores a value. -/
def isData : Descriptor → Bool
  | data .. => true
  | accessor .. => false

/-- The value can be assigned to. -/
def isWritable : Descriptor → Bool
  | data _ w _ _ => w
  | accessor .. => false

/-- The stored value. -/
def value? : Descriptor → Option Value
  | data v _ _ _ => some v
  | accessor .. => none

/-- The same property, never to be removed or redefined. -/
def sealed : Descriptor → Descriptor
  | data v w e _ => data v w e false
  | accessor g s e _ => accessor g s e false

/-- The same property, never to change. -/
def frozen : Descriptor → Descriptor
  | data v _ e _ => data v false e false
  | accessor g s e _ => accessor g s e false

/-- Equal in every part. -/
def sameAs : Descriptor → Descriptor → Bool
  | data a aw ae ac, data b bw be bc => a.sameValue b && aw == bw && ae == be && ac == bc
  | accessor ag as ae ac, accessor bg bs be bc => ag == bg && as == bs && ae == be && ac == bc
  | _, _ => false

/-- A property that is not configurable may be redefined only where nothing observable changes,
but for a writable value, which may be given another value or become read-only. -/
def allows (current new : Descriptor) : Bool :=
  current.isConfigurable
    || (!new.isConfigurable && new.isEnumerable == current.isEnumerable
      && match current, new with
        | data v w _ _, data v' w' _ _ => w || (!w' && v.sameValue v')
        | accessor g s _ _, accessor g' s' _ _ => g == g' && s == s'
        | _, _ => false)

end Descriptor

end Stasis
