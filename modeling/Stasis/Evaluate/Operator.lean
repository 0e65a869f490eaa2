import Stasis.Realm.Change
import Stasis.Text.Blank

/-!
# Operators

* `wideResult`: arithmetic of big integers, exact or refused.
* `compareValues?`: the order of two values, if they have one.
* `looseEquals`: equality after conversion.
* `binary`, `negate`, `invert`, `stepped`: the operators on values.
-/

namespace Stasis

open Script (BinaryOp)

/-- The arithmetic of doubles. -/
def numberResult (op : BinaryOp) (a b : Float) : Float :=
  match op with
  | .add => a + b
  | .sub => a - b
  | .mul => a * b
  | .div => a / b
  | .rem => Number.remainder a b
  | _ => Number.power a b

/-- A power that is no larger than a big integer can be; larger ones are not computed. -/
def widePower (base : Int) (exponent : Nat) : Option Int :=
  if base.natAbs ≤ 1 then
    if UInt32.size ≤ exponent then none
    else some (base.pow (if exponent = 0 then 0 else 2 - exponent % 2))
  else if exponent ≤ 128 then some (base.pow exponent)
  else none

/-- The arithmetic of big integers: the exact result, if it is one of them. -/
def wideResult (op : BinaryOp) (a b : Int) : Except String Int :=
  let fit (n : Option Int) : Except String Int :=
    match n.filter Number.fitsWide with
    | some n => .ok n
    | none => .error "Maximum BigInt size exceeded"
  match op with
  | .add => fit (some (a + b))
  | .sub => fit (some (a - b))
  | .mul => fit (some (a * b))
  | .div => if b = 0 then .error "Division by zero" else fit (some (a.tdiv b))
  | .rem =>
    if b = 0 then .error "Division by zero"
    else if Number.fitsWide (a.tdiv b) then .ok (a.tmod b)
    else .error "Maximum BigInt size exceeded"
  | _ =>
    if b < 0 then .error "Exponent must be non-negative"
    else fit (widePower a b.toNat)

/-- The operation of a bit operator. -/
def bitOperation (op : BinaryOp) (width : Nat) (a b : BitVec width) : BitVec width :=
  match op with
  | .bitAnd => a &&& b
  | .bitOr => a ||| b
  | _ => a ^^^ b

/-- One text is before another in the order of their 16-bit units. -/
def textBefore (a b : String) : Bool :=
  decide (textUnits a < textUnits b)

/-- The values are of one type, without conversion. -/
def Value.sameType : Value → Value → Bool
  | .undefined, .undefined | .null, .null | .bool _, .bool _ | .number _, .number _
  | .bigint _, .bigint _ | .text _, .text _ | .symbol _, .symbol _ | .object _, .object _ => true
  | _, _ => false

/-- Equality of two primitive values after conversion; truth values count as numbers. -/
def equalPrimitives (a b : Value) : Bool :=
  let asNumber : Value → Value
    | .bool b => .number (if b then 1 else 0)
    | v => v
  if a.sameType b then a.strictEquals b
  else if a.isNullish || b.isNullish then a.isNullish && b.isNullish
  else
    match asNumber a, asNumber b with
    | .number x, .text s | .text s, .number x => x == numberOfText s
    | .bigint n, .text s | .text s, .bigint n =>
      Number.readInteger 10 Number.minWide Number.maxWide (Text.trim s.toList) == some n
    | .bigint n, .number x | .number x, .bigint n => Number.isWhole x && Number.ofInt n == x
    | x, y => x.strictEquals y

/-- Refuses numbers beside big integers. -/
def throwMixed {α : Type} : Run α :=
  throwType "Cannot mix BigInt and other types, use explicit conversions"

/-- The order of two primitive values as numbers, if they have one. -/
def numbersBefore? (a b : Value) : Run (Option Bool) := do
  match a, b with
  | .text s, .text t => return some (textBefore s t)
  | .bigint m, .bigint n => return some (decide (m < n))
  | .bigint m, _ =>
    let y ← primitiveNumber b
    return if y.isNaN then none else some (Number.ofInt m < y)
  | _, .bigint n =>
    let x ← primitiveNumber a
    return if x.isNaN then none else some (x < Number.ofInt n)
  | _, _ =>
    let x ← primitiveNumber a
    let y ← primitiveNumber b
    return if x.isNaN || y.isNaN then none else some (x < y)

variable [Machine]

/-- Arithmetic with conversion. -/
def arithmetic (op : BinaryOp) (left right : Value) : Run Value := do
  let a ← toNumeric left
  let b ← toNumeric right
  match a, b with
  | .number x, .number y => return .number (numberResult op x y)
  | .bigint m, .bigint n =>
    match wideResult op m n with
    | .ok result => return .bigint result
    | .error message => throwRange message
  | _, _ => throwMixed

/-- Bit operators with conversion. -/
def bits (op : BinaryOp) (left right : Value) : Run Value := do
  let a ← toNumeric left
  let b ← toNumeric right
  match a, b with
  | .number x, .number y =>
    let result := Number.bitwise 32 (bitOperation op 32) (Number.toInt32 x) (Number.toInt32 y)
    return .number (Number.ofInt result)
  | .bigint m, .bigint n => return .bigint (Number.bitwise 128 (bitOperation op 128) m n)
  | _, _ => throwMixed

/-- Addition, and joining of texts. -/
def addValues (left right : Value) : Run Value := do
  let a ← toPrimitive left .number
  let b ← toPrimitive right .number
  match a, b with
  | .text _, _ | _, .text _ =>
    let s ← primitiveText a
    let t ← primitiveText b
    return .text (s ++ t)
  | _, _ => arithmetic .add a b

/-- The left value is before the right one; nothing if they have no order. -/
def isBefore? (left right : Value) : Run (Option Bool) := do
  let a ← toPrimitive left .number
  let b ← toPrimitive right .number
  numbersBefore? a b

/-- Equality after conversion. -/
def looseEquals (left right : Value) : Run Bool := do
  match left, right with
  | .object a, .object b => return a == b
  | .object _, _ =>
    if right.isNullish then return false
    return equalPrimitives (← toPrimitive left .number) right
  | _, .object _ =>
    if left.isNullish then return false
    return equalPrimitives left (← toPrimitive right .number)
  | _, _ => return equalPrimitives left right

/-- An object stands somewhere behind another one. -/
def behind (target : ObjectId) : Nat → ObjectId → Run Bool
  | 0, _ => throw .outOfFuel
  | steps + 1, id => do
    match (← objectAt id).prototype with
    | none => return false
    | some next => if next = target then return true else behind target steps next

/-- The object behind which the constructor puts its objects stands behind the value. -/
def instanceOf (value target : Value) : Run Bool := do
  if !(← get).isCallable target then
    throwType "Right-hand side of 'instanceof' is not callable"
  match ← getNamed target "prototype", value with
  | .object prototype, .object id => behind prototype ((← get).store.size + 1) id
  | .object _, _ => return false
  | _, _ => throwType "Function has non-object prototype in instanceof check"

/-- An operator on two values. -/
def binary (op : BinaryOp) (left right : Value) : Run Value := do
  match op with
  | .add => addValues left right
  | .sub | .mul | .div | .rem | .exp => arithmetic op left right
  | .bitAnd | .bitOr | .bitXor => bits op left right
  | .eq => return .bool (← looseEquals left right)
  | .notEq => return .bool !(← looseEquals left right)
  | .strictEq => return .bool (left.strictEquals right)
  | .strictNotEq => return .bool !(left.strictEquals right)
  | .lt => return .bool ((← isBefore? left right) == some true)
  | .gt => return .bool ((← isBefore? right left) == some true)
  | .ltEq => return .bool ((← isBefore? right left) == some false)
  | .gtEq => return .bool ((← isBefore? left right) == some false)
  | .instanceOf => return .bool (← instanceOf left right)
  | .in =>
    match right with
    | .object id =>
      let key ← toKey left
      return .bool (← ofRealm fun r => r.holdsKey id key)
    | _ =>
      throwType ("Cannot use 'in' operator to search for '" ++ (← display left) ++ "' in "
        ++ (← display right))

/-- The sign changed. -/
def negate (v : Value) : Run Value := do
  match ← toNumeric v with
  | .bigint n => return .bigint (Number.wrapWide (-n))
  | .number x => return .number (-x)

/-- All bits changed. -/
def invert (v : Value) : Run Value := do
  match ← toNumeric v with
  | .bigint n => return .bigint (-n - 1)
  | .number x => return .number (Number.ofInt (-Number.toInt32 x - 1))

/-- One more or one less. -/
def stepped (n : Numeric) (delta : Int) : Numeric :=
  match n with
  | .bigint n => .bigint (Number.wrapWide (n + delta))
  | .number x => .number (x + Number.ofInt delta)

/-- A number as a value. -/
def Numeric.value : Numeric → Value
  | number x => .number x
  | bigint n => .bigint n

end Stasis
