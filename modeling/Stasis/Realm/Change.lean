import Stasis.Number.Arithmetic
import Stasis.Realm.Convert

/-!
# Changing properties

Scripts are strict: what cannot be changed throws.

* `defineOrThrow`, `addProperty`: own properties.
* `setProperty`: an assignment; setters run.
* `deleteProperty`: taking an own property out.
* `newObject`, `newArray`: objects made by literals.
* `arrayItems`, `iterated`: the elements of an array, and of anything that can be iterated.
-/

namespace Stasis

/-- Defines an own property. -/
def defineOrThrow (id : ObjectId) (key : Key) (d : Descriptor) : Run Unit := do
  let o ← objectAt id
  if ← define id key d then return ()
  if (o.own? key).isNone && !o.extensible then
    throwType ("Cannot add property " ++ (← displayKey key) ++ ", object is not extensible")
  else throwType ("Cannot redefine property: " ++ (← displayKey key))

/-- Defines an own property as an assignment does. -/
def addProperty (id : ObjectId) (key : Key) (v : Value) : Run Unit :=
  defineOrThrow id key (.plain v)

/-- A new object. -/
def newObject : Run ObjectId := do allocate (some (← get).known.object) .ordinary

/-- The length of a new array. -/
def newLength : Descriptor := .data (.number 0) true false false

/-- A new array. -/
def newArray (items : List Value) : Run ObjectId := do
  let id ← allocate (some (← get).known.array) .array
  let _ ← define id .length newLength
  for (v, index) in items.zipIdx do
    let _ ← define id (.ofIndex index) (.plain v)
  return id

/-- Takes an own property out. -/
def deleteProperty (base : Value) (key : Key) : Run Bool := do
  match base with
  | .object id =>
    if ← changeStore fun s => s.delete id key then return true
    throwType ("Cannot delete property '" ++ (← displayKey key) ++ "' of object")
  | .undefined | .null => throwType "Cannot convert undefined or null to object"
  | _ => return true

/-- Writes a byte through a window on a buffer; nothing happens outside of it. -/
def writeByte (window index : Nat) (x : Float) : Run Unit := do
  match ← kindOf window with
  | .bytes buffer offset length =>
    if index < length then
      match ← kindOf buffer with
      | .buffer b =>
        let i := offset + index
        if i < b.bytes.size then
          setKind buffer (.buffer { b with bytes := b.bytes.set! i (Number.toByte x) })
      | _ => return ()
  | _ => return ()

variable [Machine]

/-- Assigns to a property. -/
def setProperty (base : Value) (key : Key) (v : Value) : Run Unit := do
  match base with
  | .object id =>
    match key.arrayIndex?, ← kindOf id with
    | some index, .bytes .. => writeByte id index (← toNumber v)
    | _, _ =>
      match ← ofStore fun s => s.lookup id key with
      | some (holder, .data _ writable enumerable configurable) =>
        if !writable then
          throwType ("Cannot assign to read only property '" ++ (← displayKey key)
            ++ "' of object")
        if holder = id then defineOrThrow id key (.data v writable enumerable configurable)
        else addProperty id key v
      | some (_, .accessor _ (some setter) ..) =>
        let _ ← call (.object setter) base [v]
      | some (_, .accessor _ none ..) =>
        throwType ("Cannot set property " ++ (← displayKey key)
          ++ " of #<Object> which has only a getter")
      | none => addProperty id key v
  | _ =>
    let shown ← display base
    let key ← displayKey key
    if base.isNullish then
      throwType ("Cannot set properties of " ++ shown ++ " (setting '" ++ key ++ "')")
    else throwType ("Cannot create property '" ++ key ++ "' on " ++ shown)

/-- A length as a number of elements. -/
def elementCount (x : Float) : Nat :=
  if x.isFinite && 0 < x then (Number.truncate 0 (UInt64.size - 1) x).toNat else 0

/-- The elements of an object with a length. -/
def arrayItems (id : ObjectId) : Run (List Value) := do
  let length := elementCount (← toNumber (← getOf id "length"))
  let length ← checkSize length "array length"
  (List.range length).mapM fun i => getFrom id (.ofIndex i) (.object id)

/-- The values that an iteration gives. -/
def iterated (v : Value) : Run (List Value) := do
  let refuse : Run (List Value) := do throwType ((← display v) ++ " is not iterable")
  match v with
  | .text s => return s.toList.map fun c => .text c.toString
  | .object id =>
    match ← kindOf id with
    | .array | .bytes .. => arrayItems id
    | .map entries => entries.entries.mapM fun (k, v) => do
      return .object (← newArray [k.toValue, v])
    | .set elements => return elements.keys.map CollectionKey.toValue
    | _ => refuse
  | _ => refuse

end Stasis
