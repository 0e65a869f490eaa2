import Stasis.Realm.Machine
import Stasis.Realm.Throw

/-!
# Reading properties

* `getFrom`: a property of an object or of what stands behind it; getters run.
* `getProperty`: a property of any value. Primitive values have those of their prototypes.
* `Realm.holdsKey`: the presence of a property.
-/

namespace Stasis

/-- The 16-bit units of a text. A character beyond the first 65536 takes two. -/
def textUnits (s : String) : List Nat :=
  s.toList.flatMap fun c =>
    let n := c.toNat
    if n < 0x10000 then [n]
    else [0xD800 + (n - 0x10000) / 0x400, 0xDC00 + (n - 0x10000) % 0x400]

/-- The text of one unit. Half a character is replaced. -/
def unitText (n : Nat) : String :=
  if 0xD800 ≤ n ∧ n < 0xE000 then "\ufffd" else (Char.ofNat n).toString

namespace Realm

variable (r : Realm)

/-- The prototype behind a primitive value. -/
def prototypeOf? : Value → Option ObjectId
  | .bool _ => some r.known.boolean
  | .number _ => some r.known.number
  | .bigint _ => some r.known.bigint
  | .text _ => some r.known.string
  | .symbol _ => some r.known.symbol
  | .undefined | .null | .object _ => none

/-- The value can stand behind `new`. -/
def isConstructor (v : Value) : Bool :=
  match v.object?.map r.store.get with
  | some (.ok o) =>
    match o.kind with
    | .function (.script node ..) => node.kind.isConstructable
    | .function (.class ..) => true
    | .function (.native id _) => id.isConstructor
    | _ => false
  | _ => false

/-- A byte of a buffer. -/
def byteAt? (buffer : ObjectId) (index : Nat) : Except HeapError (Option UInt8) := do
  match (← r.store.get buffer).kind with
  | .buffer b => return if b.detached then none else b.bytes[index]?
  | _ => return none

/-- An element of a window on a buffer; nothing if the object is none. -/
def element? (id : ObjectId) (key : Key) : Except HeapError (Option Value) := do
  match key.arrayIndex? with
  | none => return none
  | some index =>
    match (← r.store.get id).kind with
    | .bytes buffer offset length =>
      if length ≤ index then return some .undefined
      match ← r.byteAt? buffer (offset + index) with
      | some byte => return some (.number (Float.ofNat byte.toNat))
      | none => return some .undefined
    | _ => return none

/-- The object or one behind it has the property. -/
def holdsKey (id : ObjectId) (key : Key) : Except HeapError Bool := do
  match key.arrayIndex?, (← r.store.get id).kind with
  | some index, .bytes _ _ length => return decide (index < length)
  | _, _ => return (← r.store.lookup id key).isSome

end Realm

/-- Reads the realm, which may fail for what the store says. -/
def ofRealm {α : Type} (read : Realm → Except HeapError α) : Run α := do
  match read (← get) with
  | .ok a => pure a
  | .error cause => raise (.heap cause)

variable [Machine]

/-- A property from an object on. Getters run on `receiver`. -/
def getFrom (start : ObjectId) (key : Key) (receiver : Value) : Run Value := do
  match ← ofRealm fun r => r.element? start key with
  | some v => return v
  | none =>
    match ← ofStore fun s => s.lookup start key with
    | some (_, .data v ..) => return v
    | some (_, .accessor (some getter) ..) => call (.object getter) receiver []
    | some (_, .accessor none ..) | none => return .undefined

/-- A property of an object. -/
def getOf (id : ObjectId) (name : String) : Run Value := getFrom id (.text name) (.object id)

/-- A property of any value. -/
def getProperty (base : Value) (key : Key) : Run Value := do
  match base with
  | .object id => getFrom id key base
  | .undefined | .null =>
    throwType ("Cannot read properties of " ++ (← display base) ++ " (reading '"
      ++ (← displayKey key) ++ "')")
  | .text s =>
    if key = .length then return .number (Float.ofNat (textUnits s).length)
    match key.arrayIndex? with
    | some index =>
      match (textUnits s)[index]? with
      | some unit => return .text (unitText unit)
      | none => return .undefined
    | none => getFrom (← get).known.string key base
  | _ =>
    match (← get).prototypeOf? base with
    | some prototype => getFrom prototype key base
    | none => return .undefined

/-- A named property of any value. -/
def getNamed (base : Value) (name : String) : Run Value := getProperty base (.text name)

/-- The object in the property `prototype` of a constructor, or another one in its place. -/
def prototypeFrom (constructor : Option ObjectId) (fallback : ObjectId) : Run ObjectId := do
  match constructor with
  | none => return fallback
  | some id => return ((← getOf id "prototype").object?).getD fallback

end Stasis
