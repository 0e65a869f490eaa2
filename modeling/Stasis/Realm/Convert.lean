import Stasis.Realm.Access
import Stasis.Text.Blank

/-!
# Conversions

* `Value.isTruthy`: a value as a condition.
* `numberOfText`: a text as a number.
* `toPrimitive`, `toNumber`, `toNumeric`, `toText`, `toKey`, `toObject`: what scripts do with a
  value where another kind is needed. Objects are asked through their methods.
-/

namespace Stasis

/-- A value as a condition. -/
def Value.isTruthy : Value → Bool
  | .undefined | .null => false
  | .bool b => b
  | .number x => x != 0 && !x.isNaN
  | .bigint n => n != 0
  | .text s => !s.isEmpty
  | .symbol _ | .object _ => true

/-- A word stands somewhere in a text. -/
def mentions (word : List Char) : List Char → Bool
  | [] => word.isEmpty
  | c :: cs => word.isPrefixOf (c :: cs) || mentions word cs

/-- The value of a whole number in another base, below `2 ^ 64`. -/
def numberInBase (base : Nat) (digits : List Char) : Float :=
  match Number.readNatural base (UInt64.size - 1) digits with
  | some n => Number.ofInt n
  | none => 0 / 0

/-- A text as a number. Blanks around it do not count, and only the full name of infinity is
known. -/
def numberOfText (s : String) : Float :=
  let cs := Text.trim s.toList
  let lower := cs.map Char.toLower
  match lower with
  | [] => 0
  | '0' :: 'x' :: digits => numberInBase 16 digits
  | '0' :: 'o' :: digits => numberInBase 8 digits
  | '0' :: 'b' :: digits => numberInBase 2 digits
  | _ =>
    if cs = "Infinity".toList ∨ cs = "+Infinity".toList then 1 / 0
    else if cs = "-Infinity".toList then -1 / 0
    else if mentions "inf".toList lower || mentions "nan".toList lower then 0 / 0
    else (Number.readDouble cs).getD (0 / 0)

/-- Which conversion an object is asked for first. -/
inductive Hint where
  | number
  | text
deriving DecidableEq

/-- The methods by which an object is asked, in order. -/
def Hint.methods : Hint → List String
  | number => ["valueOf", "toString"]
  | text => ["toString", "valueOf"]

/-- A primitive value that is not an object, as a number. -/
def primitiveNumber : Value → Run Float
  | .undefined => return 0 / 0
  | .null => return 0
  | .bool b => return if b then 1 else 0
  | .number x => return x
  | .text s => return numberOfText s
  | .bigint _ => throwType "Cannot convert a BigInt value to a number"
  | .symbol _ => throwType "Cannot convert a Symbol value to a number"
  | .object _ => throwType "Cannot convert object to primitive value"

/-- A primitive value as a text. -/
def primitiveText : Value → Run String
  | .undefined => return "undefined"
  | .null => return "null"
  | .bool b => return if b then "true" else "false"
  | .number x => return Number.scriptText x
  | .bigint n => return Number.integerText n
  | .text s => return s
  | .symbol _ => throwType "Cannot convert a Symbol value to a string"
  | .object _ => throwType "Cannot convert object to primitive value"

/-- A new object for a primitive value. -/
def toObject (v : Value) : Run ObjectId := do
  match v with
  | .object id => return id
  | .undefined | .null => throwType "Cannot convert undefined or null to object"
  | primitive => allocate ((← get).prototypeOf? primitive) (.wrapper primitive)

variable [Machine]

/-- Asks an object by its methods in order; the first answer that is not an object counts. -/
def askMethods (id : ObjectId) : List String → Run Value
  | [] => throwType "Cannot convert object to primitive value"
  | name :: rest => do
    let method ← getOf id name
    if (← get).isCallable method then
      let answer ← call method (.object id) []
      if answer.isObject then askMethods id rest else return answer
    else askMethods id rest

/-- A value as a primitive one. -/
def toPrimitive (v : Value) (hint : Hint) : Run Value :=
  match v with
  | .object id => askMethods id hint.methods
  | _ => return v

/-- A value as a number. -/
def toNumber (v : Value) : Run Float := do primitiveNumber (← toPrimitive v .number)

/-- A number or a big integer. -/
inductive Numeric where
  | number (value : Float)
  | bigint (value : Int)

/-- A value as a number or a big integer. -/
def toNumeric (v : Value) : Run Numeric := do
  match ← toPrimitive v .number with
  | .bigint n => return .bigint n
  | primitive => return .number (← primitiveNumber primitive)

/-- A value as a text. -/
def toText (v : Value) : Run String := do primitiveText (← toPrimitive v .text)

/-- A value as the key of a property. -/
def toKey (v : Value) : Run Key := do
  match ← toPrimitive v .text with
  | .symbol id => return .symbol id
  | primitive => return .text (← primitiveText primitive)

end Stasis
