import Stasis.Number.Layout
import Stasis.Text.Shown

/-!
# Values

Objects and symbols are numbers of entries in a store and in a symbol table.

* `Value`: what a variable or a property holds.
* `Value.strictEquals`, `Value.sameValueZero`, `Value.sameValue`: the three equalities. They differ
  in numbers only: on the NaN, and on the sign of zero.
* `CollectionKey`: a value up to `sameValueZero`, as the key of a collection.
-/

namespace Stasis

/-- The number of an object in its store. -/
abbrev ObjectId := Nat

/-- The number of a symbol in its table. -/
abbrev SymbolId := Nat

/-- What a variable or a property holds. -/
inductive Value where
  | undefined
  | null
  | bool (value : Bool)
  | number (value : Float)
  | bigint (value : Int)
  | text (value : String)
  | symbol (id : SymbolId)
  | object (id : ObjectId)
deriving Repr, Inhabited

namespace Value

/-- The value is an object. -/
def isObject : Value → Bool
  | object _ => true
  | _ => false

/-- Neither `undefined` nor `null` has properties. -/
def isNullish : Value → Bool
  | undefined | null => true
  | _ => false

/-- The object that a value is. -/
def object? : Value → Option ObjectId
  | object id => some id
  | _ => none

/-- Equal as the operator `===` has it: no NaN equals another, both zeros do. -/
def strictEquals : Value → Value → Bool
  | undefined, undefined => true
  | null, null => true
  | bool a, bool b => a == b
  | number a, number b => a == b
  | bigint a, bigint b => a == b
  | text a, text b => a == b
  | symbol a, symbol b => a == b
  | object a, object b => a == b
  | _, _ => false

/-- Equal, with every NaN alike and the two zeros apart. -/
def sameValue : Value → Value → Bool
  | number a, number b => if a.isNaN && b.isNaN then true else a.toBits == b.toBits
  | a, b => a.strictEquals b

/-- Equal, with every NaN alike and both zeros too. -/
def sameValueZero : Value → Value → Bool
  | number a, number b => if a.isNaN && b.isNaN then true else a == b
  | a, b => a.strictEquals b

/-- A value in messages. -/
def describe : Value → String
  | undefined => "undefined"
  | null => "null"
  | bool b => if b then "true" else "false"
  | number x => Number.scriptText x
  | bigint n => Number.integerText n ++ "n"
  | text s => Text.shownText s
  | symbol id => "Symbol(" ++ toString id ++ ")"
  | object id => "[object#" ++ toString id ++ "]"

end Value

/-- The bits that stand for every NaN. -/
def nanBits : UInt64 := 0x7FF8000000000000

/-- A value up to `sameValueZero`. Numbers are kept by their bits, with one NaN and one zero. -/
inductive CollectionKey where
  | undefined
  | null
  | bool (value : Bool)
  | number (bits : UInt64)
  | bigint (value : Int)
  | text (value : String)
  | symbol (id : SymbolId)
  | object (id : ObjectId)
deriving DecidableEq, Repr

/-- The key of a value. -/
def CollectionKey.ofValue : Value → CollectionKey
  | .undefined => .undefined
  | .null => .null
  | .bool b => .bool b
  | .number x => .number (if x.isNaN then nanBits else if x == 0 then 0 else x.toBits)
  | .bigint n => .bigint n
  | .text s => .text s
  | .symbol id => .symbol id
  | .object id => .object id

/-- The value of a key. -/
def CollectionKey.toValue : CollectionKey → Value
  | .undefined => .undefined
  | .null => .null
  | .bool b => .bool b
  | .number bits => .number (Float.ofBits bits)
  | .bigint n => .bigint n
  | .text s => .text s
  | .symbol id => .symbol id
  | .object id => .object id

end Stasis
