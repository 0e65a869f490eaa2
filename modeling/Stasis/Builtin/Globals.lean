import Stasis.Builtin.Registration

/-!
# Global objects

Every realm begins with the same objects, in the same order.

* `Member`: a property of a built-in object.
* `globalClasses`, `globalNamespaces`: what the global object holds.
* `buildGlobals`: the store with all of these objects.
-/

namespace Stasis

/-- A property of a built-in object. -/
inductive Member where
  | method (name : String) (op : Native) (length : Nat)
  | getter (name : String) (op : Native)
  | value (name : String) (d : Descriptor)

/-- A built-in constructor with its own properties and those of its prototype. -/
structure Constructor where
  name : String
  op : Native
  length : Nat
  statics : List Member := []
  members : List Member := []

/-- The constructor of objects. -/
def objectConstructor : Constructor where
  name := "Object"
  op := .object .construct
  length := 1
  statics := [
    .method "getPrototypeOf" (.object .getPrototypeOf) 1,
    .method "setPrototypeOf" (.object .setPrototypeOf) 2,
    .method "create" (.object .create) 2,
    .method "defineProperty" (.object .defineProperty) 3,
    .method "getOwnPropertyDescriptor" (.object .getOwnPropertyDescriptor) 2,
    .method "getOwnPropertyNames" (.object .getOwnPropertyNames) 1,
    .method "getOwnPropertySymbols" (.object .getOwnPropertySymbols) 1,
    .method "keys" (.object .keys) 1,
    .method "entries" (.object .entries) 1,
    .method "preventExtensions" (.object .preventExtensions) 1,
    .method "isExtensible" (.object .isExtensible) 1,
    .method "freeze" (.object .freeze) 1,
    .method "isFrozen" (.object .isFrozen) 1,
    .method "seal" (.object .sealOff) 1,
    .method "isSealed" (.object .isSealed) 1,
    .method "is" (.object .is) 2]
  members := [
    .method "hasOwnProperty" (.object .hasOwnProperty) 1,
    .method "toString" (.object .toString) 0,
    .method "valueOf" (.object .valueOf) 0]

/-- The constructor of functions. -/
def functionConstructor : Constructor where
  name := "Function"
  op := .function .construct
  length := 1
  members := [
    .value "length" (.readonly (.number 0)),
    .value "name" (.readonly (.text "")),
    .method "call" (.function .call) 1,
    .method "apply" (.function .apply) 2,
    .method "toString" (.function .toString) 0]

/-- The constructor of arrays. -/
def arrayConstructor : Constructor where
  name := "Array"
  op := .array .construct
  length := 1
  statics := [.method "isArray" (.array .isArray) 1]
  members := [
    .method "push" (.array .push) 1,
    .method "pop" (.array .pop) 0,
    .method "join" (.array .join) 1,
    .method "map" (.array .map) 1,
    .method "forEach" (.array .forEach) 1,
    .method "indexOf" (.array .indexOf) 1,
    .method "includes" (.array .includes) 1,
    .method "slice" (.array .slice) 2,
    .method "toString" (.array .toString) 0]

/-- The constructor of maps. -/
def mapConstructor : Constructor where
  name := "Map"
  op := .map .construct
  length := 0
  members := [
    .method "get" (.map .get) 1,
    .method "set" (.map .set) 2,
    .method "has" (.map .has) 1,
    .method "delete" (.map .delete) 1,
    .method "forEach" (.map .forEach) 1,
    .getter "size" (.map .size)]

/-- The constructor of sets. -/
def setConstructor : Constructor where
  name := "Set"
  op := .set .construct
  length := 0
  members := [
    .method "add" (.set .add) 1,
    .method "has" (.set .has) 1,
    .method "delete" (.set .delete) 1,
    .method "forEach" (.set .forEach) 1,
    .method "values" (.set .values) 0,
    .getter "size" (.set .size)]

/-- The function that makes symbols. One symbol is there from the beginning. -/
def symbolConstructor (iterator : SymbolId) : Constructor where
  name := "Symbol"
  op := .symbol .construct
  length := 0
  statics := [
    .method "for" (.symbol .for) 1,
    .method "keyFor" (.symbol .keyFor) 1,
    .value "iterator" (.constant (.symbol iterator))]
  members := [
    .getter "description" (.symbol .description),
    .method "toString" (.symbol .toString) 0]

/-- The constructor of dates. -/
def dateConstructor : Constructor where
  name := "Date"
  op := .date .construct
  length := 7
  statics := [.method "now" (.date .now) 0]
  members := [.method "getTime" (.date .getTime) 0, .method "valueOf" (.date .getTime) 0]

/-- The constructor of patterns. -/
def regexpConstructor : Constructor where
  name := "RegExp"
  op := .regexp .construct
  length := 2
  members := [.getter "source" (.regexp .source), .getter "flags" (.regexp .flags)]

/-- The constructor of errors of one kind. -/
def errorConstructor (kind : ErrorKind) : Constructor where
  name := kind.name
  op := .error kind
  length := 1
  members := [
    .value "name" (.hidden (.text kind.name)),
    .value "message" (.hidden (.text ""))]

/-- The constructor of promises. -/
def promiseConstructor : Constructor where
  name := "Promise"
  op := .promise .construct
  length := 1
  statics := [.method "resolve" (.promise .resolve) 1, .method "reject" (.promise .reject) 1]

/-- The constructor of buffers. -/
def bufferConstructor : Constructor where
  name := "ArrayBuffer"
  op := .buffer .construct
  length := 1
  members := [
    .getter "byteLength" (.buffer .byteLength),
    .getter "maxByteLength" (.buffer .maxByteLength),
    .getter "resizable" (.buffer .resizable),
    .getter "detached" (.buffer .detached),
    .method "resize" (.buffer .resize) 1,
    .method "transfer" (.buffer .transfer) 0]

/-- The constructor of windows on buffers. -/
def bytesConstructor : Constructor where
  name := "Uint8Array"
  op := .bytes .construct
  length := 3
  members := [
    .getter "length" (.bytes .length),
    .getter "buffer" (.bytes .buffer),
    .getter "byteOffset" (.bytes .byteOffset)]

/-- The constructor of objects for one kind of primitive values. -/
def primitiveConstructor (name : String) (op : PrimitiveNative) : Constructor where
  name := name
  op := .primitive op
  length := 1
  members := [
    .method "valueOf" (.primitive .valueOf) 0,
    .method "toString" (.primitive .toString) 0]

/-- Global objects that hold functions and nothing else. -/
def globalNamespaces : List (String × List Member) := [
  ("Math", [
    .method "floor" (.math .floor) 1,
    .method "abs" (.math .abs) 1,
    .method "max" (.math .max) 2,
    .method "min" (.math .min) 2]),
  ("JSON", [
    .method "stringify" (.json .stringify) 3,
    .method "parse" (.json .parse) 2]),
  ("console", [.method "log" .consoleLog 0])]

/-- The functions of the runtime. -/
def runtimeMembers : List Member := [
  .method "registerFunction" (.runtime .registerFunction) 2,
  .method "registerClass" (.runtime .registerClass) 2,
  .method "registerAccessors" (.runtime .registerAccessors) 2,
  .method "registerHostObject" (.runtime .registerHostObject) 2,
  .method "ensureSerializable" (.runtime .ensureSerializable) 1,
  .method "serialize" (.runtime .serialize) 2,
  .method "deserialize" (.runtime .deserialize) 1]

/-- The first object of every store stands behind all others. -/
def objectPrototype : ObjectId := 0

/-- The second one stands behind all functions. -/
def functionPrototype : ObjectId := 1

/-- The third one is the global object. -/
def globalObject : ObjectId := 2

/-- A step of building the global objects. -/
abbrev Build (α : Type) := StateM Store α

/-- Adds an object. -/
def addObject (behind : Option ObjectId) (kind : Kind) : Build ObjectId :=
  modifyGet fun s => s.alloc behind kind

/-- Gives an object a property. -/
def put (id : ObjectId) (name : String) (d : Descriptor) : Build Unit :=
  modify fun s => ⟨s.objects.modify id fun o => (o.define (.text name) d).1⟩

/-- Adds a built-in function. -/
def addFunction (behind : ObjectId) (op : Native) (name : String) (length : Nat) :
    Build ObjectId := do
  let id ← addObject (some behind) (.function (.native op none))
  put id "length" (.readonly (.number (Float.ofNat length)))
  put id "name" (.readonly (.text name))
  return id

/-- Gives an object a built-in property. -/
def addMember (id : ObjectId) : Member → Build Unit
  | .method name op length => do
    let f ← addFunction functionPrototype op name length
    put id name (.hidden (.object f))
  | .getter name op => do
    let f ← addFunction functionPrototype op ("get " ++ name) 0
    put id name (.accessor (some f) none false true)
  | .value name d => put id name d

/-- Adds a constructor for a prototype. -/
def addConstructor (c : Constructor) (prototype : ObjectId)
    (behind : ObjectId := functionPrototype) : Build ObjectId := do
  let id ← addFunction behind c.op c.name c.length
  put id "prototype" (.constant (.object prototype))
  put prototype "constructor" (.hidden (.object id))
  c.statics.forM (addMember id)
  c.members.forM (addMember prototype)
  return id

/-- Gives the global object a property. -/
def addGlobal (name : String) (id : ObjectId) : Build Unit :=
  put globalObject name (.hidden (.object id))

/-- Adds a global constructor; the answer is its prototype. -/
def addClass (c : Constructor) (kind : Kind := .ordinary) : Build ObjectId := do
  let prototype ← addObject (some objectPrototype) kind
  addGlobal c.name (← addConstructor c prototype)
  return prototype

/-- Adds a global object that holds functions. -/
def addNamespace (name : String) (members : List Member) : Build Unit := do
  let id ← addObject (some objectPrototype) .ordinary
  members.forM (addMember id)
  addGlobal name id

/-- Adds the constructors of errors; the answer has their prototypes. Those of particular errors
stand before those of all errors. -/
def addErrors : Build (ErrorKind → ObjectId) := do
  let prototype ← addObject (some objectPrototype) .ordinary
  let base ← addConstructor (errorConstructor .error) prototype
  addGlobal ErrorKind.error.name base
  addMember prototype (.method "toString" .errorToString 0)
  let particular (kind : ErrorKind) : Build ObjectId := do
    let own ← addObject (some prototype) .ordinary
    addGlobal kind.name (← addConstructor (errorConstructor kind) own base)
    return own
  let typeError ← particular .typeError
  let referenceError ← particular .referenceError
  let rangeError ← particular .rangeError
  let syntaxError ← particular .syntaxError
  return fun
    | .error => prototype
    | .typeError => typeError
    | .referenceError => referenceError
    | .rangeError => rangeError
    | .syntaxError => syntaxError

/-- Builds the global objects. -/
def buildGlobals (iterator : SymbolId) : Build WellKnown := do
  let object ← addObject none .ordinary
  let function ← addObject (some objectPrototype) (.function (.native .empty none))
  let global ← addObject (some objectPrototype) .ordinary
  addGlobal "Object" (← addConstructor objectConstructor object)
  addGlobal "Function" (← addConstructor functionConstructor function)
  let array ← addObject (some objectPrototype) .array
  put array "length" newLength
  addGlobal "Array" (← addConstructor arrayConstructor array)
  let map ← addClass mapConstructor
  let set ← addClass setConstructor
  let symbol ← addClass (symbolConstructor iterator)
  let date ← addClass dateConstructor
  let regexp ← addClass regexpConstructor
  let errors ← addErrors
  let promise ← addClass promiseConstructor
  let buffer ← addClass bufferConstructor
  let bytes ← addClass bytesConstructor
  -- the next three prototypes hold primitive values themselves
  let number ← addClass (primitiveConstructor "Number" .number) (.wrapper (.number 0))
  let string ← addClass (primitiveConstructor "String" .string) (.wrapper (.text ""))
  let boolean ← addClass (primitiveConstructor "Boolean" .boolean) (.wrapper (.bool false))
  let bigint ← addClass (primitiveConstructor "BigInt" .bigint)
  for (name, members) in globalNamespaces do
    addNamespace name members
  addGlobal "globalThis" global
  addNamespace runtimeName runtimeMembers
  put global "undefined" (.constant .undefined)
  put global "NaN" (.constant (.number (0 / 0)))
  put global "Infinity" (.constant (.number (1 / 0)))
  return {
    global, object, function, array, map, set, symbol, date, regexp, promise, buffer, bytes
    number, string, boolean, bigint, errors }

end Stasis
