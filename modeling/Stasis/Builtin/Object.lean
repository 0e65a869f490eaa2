import Stasis.Builtin.Invocation

/-!
# Functions of objects

* `descriptorOf`: the property that an object of flags and values describes. Parts that are left
  out stay as they are.
* `describeProperty`: such an object for a property.
* `applyObject`: the functions of `Object`.
-/

namespace Stasis

/-- An object that describes a property. -/
def describeProperty (d : Descriptor) : Run Value := do
  let half (id : Option ObjectId) : Value := (id.map Value.object).getD .undefined
  let parts : List (String × Value) := match d with
    | .data v writable _ _ => [("value", v), ("writable", .bool writable)]
    | .accessor g s _ _ => [("get", half g), ("set", half s)]
  let flags : List (String × Value) :=
    [("enumerable", .bool d.isEnumerable), ("configurable", .bool d.isConfigurable)]
  let id ← newObject
  for (name, v) in parts ++ flags do
    addProperty id (.text name) v
  return .object id

/-- A prototype that is given. -/
def prototypeArgument (v : Value) : Run (Option ObjectId) := do
  match v with
  | .object id => return some id
  | .null => return none
  | other => throwType ("Object prototype may only be an Object or null: " ++ (← display other))

/-- Half of an accessor that is given. -/
def accessorHalf (v : Value) (word : String) : Run (Option ObjectId) := do
  match v, ← functionOf? v with
  | .undefined, _ => return none
  | _, some id => return some id
  | other, none => throwType (word ++ " must be a function: " ++ (← display other))

/-- Own properties, with the elements of a window on a buffer before all others. -/
def ownKeysOf (id : ObjectId) : Run (List (Key × Bool)) := do
  let o ← objectAt id
  let elements := match o.kind with
    | .bytes _ _ length => (List.range length).map fun i => (Key.ofIndex i, true)
    | _ => []
  return elements ++ o.ownEntries.map fun (k, d) => (k, d.isEnumerable)

/-- The word for an object in its text. -/
def Kind.tag : Kind → String
  | .wrapper (.number _) => "Number"
  | .wrapper (.text _) => "String"
  | .wrapper (.bool _) => "Boolean"
  | kind => kind.label

/-- Changes an object to one level of integrity. The elements of a window on a buffer cannot be
fixed. -/
def fixObject (id : ObjectId) (fix : Object → Object) : Run Unit := do
  match ← kindOf id with
  | .bytes _ _ length =>
    if 0 < length then throwType "Cannot freeze array buffer views with elements"
  | _ => pure ()
  changeStore fun s => do return (← s.modify id fix, ())

/-- A question about an object, with an answer for what is none. -/
def askObject (v : Value) (otherwise : Bool) (ask : Object → Bool) : Run Value := do
  match v with
  | .object id => return .bool (ask (← objectAt id))
  | _ => return .bool otherwise

/-- Puts an object behind another one. -/
def replacePrototype (target : Value) (prototype : Option ObjectId) : Run Value := do
  match target with
  | .object id =>
    match (← get).store.setPrototype id prototype with
    | .ok (store, true) => do
      modify fun r => { r with store }
      return target
    | .ok (_, false) => throwType "#<Object> is not extensible"
    | .error .cycle => throwType "Cyclic __proto__ value"
    | .error cause => raise (.heap cause)
  | _ => return target

variable [Machine]

/-- A part of the description of a property. -/
def descriptorPart (id : ObjectId) (name : String) : Run (Option Value) := do
  if ← ofRealm fun r => r.holdsKey id (.text name) then return some (← getOf id name)
  return none

/-- The property that an object describes, on top of the present one. -/
def descriptorOf (v : Value) (present : Option Descriptor) : Run Descriptor := do
  match v with
  | .object id =>
    let getter ← descriptorPart id "get"
    let setter ← descriptorPart id "set"
    let value ← descriptorPart id "value"
    let writable ← descriptorPart id "writable"
    let enumerable ← descriptorPart id "enumerable"
    let configurable ← descriptorPart id "configurable"
    let enumerable := ((enumerable.map Value.isTruthy).or (present.map Descriptor.isEnumerable)).getD
      false
    let configurable :=
      ((configurable.map Value.isTruthy).or (present.map Descriptor.isConfigurable)).getD false
    if getter.isSome || setter.isSome then
      if value.isSome || writable.isSome then
        throwType ("Invalid property descriptor. Cannot both specify accessors and a value or "
          ++ "writable attribute")
      let (oldGetter, oldSetter) := match present with
        | some (.accessor g s ..) => (g, s)
        | _ => (none, none)
      let g ← match getter with
        | some g => accessorHalf g "Getter"
        | none => pure oldGetter
      let s ← match setter with
        | some s => accessorHalf s "Setter"
        | none => pure oldSetter
      return .accessor g s enumerable configurable
    let oldValue := (present.bind Descriptor.value?).getD .undefined
    let oldWritable := present.any Descriptor.isWritable
    return .data (value.getD oldValue) ((writable.map Value.isTruthy).getD oldWritable) enumerable
      configurable
  | other => throwType ("Property description must be an object: " ++ (← display other))

/-- An own property, with the elements of a window on a buffer among them. -/
def ownProperty? (id : ObjectId) (key : Key) : Run (Option Descriptor) := do
  match key.arrayIndex?, ← kindOf id with
  | some index, .bytes _ _ length =>
    if length ≤ index then return none
    return some (.plain (← getFrom id key (.object id)))
  | _, _ => return (← objectAt id).own? key

/-- A new object with a prototype and with the properties that another one describes. -/
def createObject (prototype : Option ObjectId) (properties : Value) : Run Value := do
  let id ← allocate prototype .ordinary
  match properties with
  | .object source =>
    for (key, d) in (← objectAt source).ownEntries do
      if d.isEnumerable then
        let described ← getFrom source key properties
        defineOrThrow id key (← descriptorOf described none)
  | _ => pure ()
  return .object id

/-- Names of own properties. -/
def ownNames (id : ObjectId) (all : Bool) : Run (List String) := do
  return (← ownKeysOf id).filterMap fun (k, enumerable) =>
    if all || enumerable then k.text? else none

/-- Calls a function of `Object`. -/
def applyObject (op : ObjectNative) (c : Invocation) : Run Value := do
  let first := c.arg 0
  match op with
  | .construct =>
    if first.isNullish then return .object (← newObject)
    return .object (← toObject first)
  | .getPrototypeOf =>
    match (← objectAt (← toObject first)).prototype with
    | some id => return .object id
    | none => return .null
  | .setPrototypeOf => replacePrototype first (← prototypeArgument (c.arg 1))
  | .create => createObject (← prototypeArgument first) (c.arg 1)
  | .defineProperty =>
    match first with
    | .object id =>
      let key ← toKey (c.arg 1)
      let present := (← objectAt id).own? key
      defineOrThrow id key (← descriptorOf (c.arg 2) present)
      return first
    | _ => throwType "Object.defineProperty called on non-object"
  | .getOwnPropertyDescriptor =>
    let id ← toObject first
    match ← ownProperty? id (← toKey (c.arg 1)) with
    | some d => describeProperty d
    | none => return .undefined
  | .getOwnPropertyNames =>
    let names ← ownNames (← toObject first) true
    return .object (← newArray (names.map Value.text))
  | .keys =>
    let names ← ownNames (← toObject first) false
    return .object (← newArray (names.map Value.text))
  | .entries =>
    let id ← toObject first
    let pairs ← (← ownNames id false).mapM fun name => do
      return Value.object (← newArray [.text name, ← getOf id name])
    return .object (← newArray pairs)
  | .getOwnPropertySymbols =>
    let keys := (← objectAt (← toObject first)).ownKeys
    return .object (← newArray (keys.filterMap fun
      | .symbol id => some (.symbol id)
      | .text _ => none))
  | .preventExtensions =>
    match first with
    | .object id =>
      changeStore fun s => do
        return (← s.modify id fun o => { o with extensible := false }, ())
    | _ => pure ()
    return first
  | .isExtensible => askObject first false fun o => o.extensible
  | .freeze =>
    match first with
    | .object id => fixObject id Object.frozen
    | _ => pure ()
    return first
  | .isFrozen => askObject first true Object.isFrozen
  | .sealOff =>
    match first with
    | .object id => fixObject id Object.sealed
    | _ => pure ()
    return first
  | .isSealed => askObject first true Object.isSealed
  | .is => return .bool (first.sameValue (c.arg 1))
  | .hasOwnProperty =>
    let key ← toKey first
    return .bool (← ownProperty? (← toObject c.this) key).isSome
  | .toString =>
    let tag ← match c.this with
      | .undefined => pure "Undefined"
      | .null => pure "Null"
      | v => do pure (← kindOf (← toObject v)).tag
    return .text ("[object " ++ tag ++ "]")
  | .valueOf => return .object (← toObject c.this)

end Stasis
