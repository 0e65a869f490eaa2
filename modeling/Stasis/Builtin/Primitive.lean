import Stasis.Builtin.Invocation

/-!
# Functions of primitive values

* `toBigint`: a value as a big integer.
* `applyPrimitive`: the functions `Number`, `String`, `Boolean` and `BigInt`, and those of their
  objects. Behind `new` the first three make an object for the value.
* `applySymbol`, `applyMath`: the functions of `Symbol` and of `Math`.
-/

namespace Stasis

/-- The value itself, or the one that an object was made for. -/
def unwrapped (v : Value) : Run Value := do
  let refuse : Run Value := throwType "valueOf called on incompatible receiver"
  match v with
  | .object id =>
    match ← kindOf id with
    | .wrapper inner => return inner
    | _ => refuse
  | .undefined | .null => refuse
  | primitive => return primitive

/-- The symbol that a function is called on. -/
def symbolReceiver (v : Value) : Run SymbolId := do
  let refuse : Run SymbolId :=
    throwType "Symbol.prototype method called on incompatible receiver"
  match v with
  | .symbol id => return id
  | .object id =>
    match ← kindOf id with
    | .wrapper (.symbol id) => return id
    | _ => refuse
  | _ => refuse

/-- The larger or the smaller of two numbers; no number where one of them is none. -/
def extremum (largest : Bool) (x y : Float) : Float :=
  if x.isNaN || y.isNaN then 0 / 0
  else if largest then if x < y then y else x
  else if y < x then y else x

variable [Machine]

/-- A value as a big integer. -/
def toBigint (v : Value) : Run Int := do
  match ← toPrimitive v .number with
  | .bigint n => return n
  | .bool b => return if b then 1 else 0
  | .number x =>
    if Number.isWhole x then return Number.truncate Number.minWide Number.maxWide x
    throwRange ("The number " ++ Number.scriptText x
      ++ " cannot be converted to a BigInt because it is not an integer")
  | .text s =>
    match Number.readInteger 10 Number.minWide Number.maxWide (Text.trim s.toList) with
    | some n => return n
    | none => throwSyntax ("Cannot convert " ++ s ++ " to a BigInt")
  | other => throwType ("Cannot convert " ++ (← display other) ++ " to a BigInt")

/-- A value as a number; big integers are rounded. -/
def numberArgument (c : Invocation) : Run Float := do
  match c.args with
  | [] => return 0
  | .bigint n :: _ => return Number.ofInt n
  | v :: _ => toNumber v

/-- A value as a text. Symbols have one only where no object is made. -/
def textArgument (c : Invocation) : Run String := do
  match c.args, c.newTarget with
  | [], _ => return ""
  | .symbol id :: _, none => return (← get).symbolText id
  | v :: _, _ => toText v

/-- The value, or behind `new` an object for it. -/
def primitiveOrObject (c : Invocation) (v : Value) (fallback : ObjectId) : Run Value := do
  if c.newTarget.isNone then return v
  return .object (← allocate (some (← prototypeFrom c.newTarget fallback)) (.wrapper v))

/-- Calls a function of a primitive value. -/
def applyPrimitive (op : PrimitiveNative) (c : Invocation) : Run Value := do
  match op with
  | .number =>
    primitiveOrObject c (.number (← numberArgument c)) (← get).known.number
  | .string =>
    primitiveOrObject c (.text (← textArgument c)) (← get).known.string
  | .boolean =>
    primitiveOrObject c (.bool (c.arg 0).isTruthy) (← get).known.boolean
  | .bigint => return .bigint (← toBigint (c.arg 0))
  | .valueOf => unwrapped c.this
  | .toString =>
    match ← unwrapped c.this with
    | .symbol id => return .text ((← get).symbolText id)
    | v => return .text (← toText v)

/-- Calls a function of `Symbol`. -/
def applySymbol (op : SymbolNative) (c : Invocation) : Run Value := do
  match op with
  | .construct =>
    let description ← match c.arg 0 with
      | .undefined => pure none
      | v => do pure (some (← toText v))
    modifyGet fun r =>
      let (id, symbols) := r.symbols.create description
      (.symbol id, { r with symbols })
  | .for =>
    let key ← toText (c.arg 0)
    modifyGet fun r =>
      let (id, symbols) := r.symbols.shared key
      (.symbol id, { r with symbols })
  | .keyFor =>
    match c.arg 0 with
    | .symbol id => return ((← get).symbols.keyFor? id).elim .undefined Value.text
    | v => throwType ((← display v) ++ " is not a symbol")
  | .description =>
    let id ← symbolReceiver c.this
    return ((← get).symbols.description? id).elim .undefined Value.text
  | .toString => return .text ((← get).symbolText (← symbolReceiver c.this))

/-- Calls a function of `Math`. -/
def applyMath (op : MathNative) (c : Invocation) : Run Value := do
  match op with
  | .floor => return .number (← toNumber (c.arg 0)).floor
  | .abs => return .number (← toNumber (c.arg 0)).abs
  | .max => return .number ((← c.args.mapM toNumber).foldl (extremum true) (-1 / 0))
  | .min => return .number ((← c.args.mapM toNumber).foldl (extremum false) (1 / 0))

end Stasis
