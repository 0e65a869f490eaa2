import Stasis.Builtin.Invocation

/-!
# Functions of arrays

* `relativeIndex`: a place in an array, counted from the end where it is negative.
* `applyArray`: the functions of `Array`. They take any object with a length for an array.
-/

namespace Stasis

/-- A place among `length` elements. -/
def relativeIndex (length : Nat) (x : Float) : Nat :=
  let n := Number.truncate (-UInt64.size) UInt64.size x
  if n < 0 then ((length : Int) + n).toNat else min n.toNat length

variable [Machine]

/-- A place that is given as an argument. -/
def relativeArgument (length default : Nat) (v : Value) : Run Nat := do
  match v with
  | .undefined => return default
  | _ =>
    let x ← toNumber v
    return if x.isNaN then default else relativeIndex length x

/-- Sets the length of an array. -/
def setLength (array : Value) (length : Nat) : Run Unit :=
  setProperty array .length (.number (Float.ofNat length))

/-- Elements as text, with a text between them. -/
def joinItems (separator : String) (items : List Value) : Run Value := do
  let texts ← items.mapM fun item => if item.isNullish then pure "" else toText item
  return .text (String.intercalate separator texts)

/-- Calls a function for every element. -/
def mapItems (c : Invocation) : Run (List Value) := do
  let id ← toObject c.this
  let callback := c.arg 0
  if !(← get).isCallable callback then throwNotFunction callback
  (← arrayItems id).zipIdx.mapM fun (item, index) =>
    call callback (c.arg 1) [item, .number (Float.ofNat index), c.this]

/-- The array that a constructor makes. -/
def constructArray (args : List Value) : Run Value := do
  match args with
  | [.number x] =>
    if x < 0 || !Number.isWhole x || Float.ofNat (indexLimit - 1) < x then
      throwRange "Invalid array length"
    let array : Value := .object (← newArray [])
    setProperty array .length (.number x)
    return array
  | _ => return .object (← newArray args)

/-- Adds elements at the end. -/
def pushItems (array : Value) (items : List Value) : Run Value := do
  let length := (← arrayItems (← toObject array)).length
  for (item, index) in items.zipIdx length do
    setProperty array (.ofIndex index) item
  setLength array (length + items.length)
  return .number (Float.ofNat (length + items.length))

/-- Takes the last element out. -/
def popItem (array : Value) : Run Value := do
  match (← arrayItems (← toObject array)).length with
  | 0 =>
    setLength array 0
    return .undefined
  | length + 1 =>
    let v ← getProperty array (.ofIndex length)
    let _ ← deleteProperty array (.ofIndex length)
    setLength array length
    return v

/-- Calls a function of `Array`. -/
def applyArray (op : ArrayNative) (c : Invocation) : Run Value := do
  match op with
  | .construct => constructArray c.args
  | .isArray =>
    match c.arg 0 with
    | .object id => return .bool (← kindOf id).isArray
    | _ => return .bool false
  | .push => pushItems c.this c.args
  | .pop => popItem c.this
  | .join =>
    let id ← toObject c.this
    let separator ← match c.arg 0 with
      | .undefined => pure ","
      | v => toText v
    joinItems separator (← arrayItems id)
  | .toString => joinItems "," (← arrayItems (← toObject c.this))
  | .map => return .object (← newArray (← mapItems c))
  | .forEach =>
    let _ ← mapItems c
    return .undefined
  | .indexOf =>
    let items ← arrayItems (← toObject c.this)
    match items.findIdx? fun item => item.strictEquals (c.arg 0) with
    | some index => return .number (Float.ofNat index)
    | none => return .number (-1)
  | .includes =>
    let items ← arrayItems (← toObject c.this)
    return .bool (items.any fun item => item.sameValueZero (c.arg 0))
  | .slice =>
    let items ← arrayItems (← toObject c.this)
    let start ← relativeArgument items.length 0 (c.arg 0)
    let stop ← relativeArgument items.length items.length (c.arg 1)
    return .object (← newArray ((items.drop start).take (stop - start)))

end Stasis
