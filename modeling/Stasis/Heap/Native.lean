/-!
# Built-in functions

Every built-in function has a name here, grouped by the object it belongs to.

* `ErrorKind`: the kinds of errors that scripts throw and catch.
* `Native`: the built-in functions.
* `Native.isConstructor`: those that may stand behind `new`.
-/

namespace Stasis

/-- The kinds of errors. -/
inductive ErrorKind where
  | error
  | typeError
  | referenceError
  | rangeError
  | syntaxError
deriving DecidableEq, Repr

/-- Every kind, the most general first. -/
def ErrorKind.all : List ErrorKind :=
  [error, typeError, referenceError, rangeError, syntaxError]

/-- The name of a kind. -/
def ErrorKind.name : ErrorKind → String
  | error => "Error"
  | typeError => "TypeError"
  | referenceError => "ReferenceError"
  | rangeError => "RangeError"
  | syntaxError => "SyntaxError"

/-- Functions of `Object` and of its prototype. -/
inductive ObjectNative where
  | construct
  | getPrototypeOf | setPrototypeOf | create
  | defineProperty | getOwnPropertyDescriptor | getOwnPropertyNames | getOwnPropertySymbols
  | keys | entries
  | preventExtensions | isExtensible | freeze | isFrozen | sealOff | isSealed
  | is
  | hasOwnProperty | toString | valueOf
deriving DecidableEq, Repr

/-- Functions of `Function` and of its prototype. -/
inductive FunctionNative where
  | construct | call | apply | toString
deriving DecidableEq, Repr

/-- Functions of `Array` and of its prototype. -/
inductive ArrayNative where
  | construct | isArray
  | push | pop | join | map | forEach | indexOf | includes | slice | toString
deriving DecidableEq, Repr

/-- Functions of `Map` and of its prototype. -/
inductive MapNative where
  | construct | get | set | has | delete | forEach | size
deriving DecidableEq, Repr

/-- Functions of `Set` and of its prototype. -/
inductive SetNative where
  | construct | add | has | delete | forEach | values | size
deriving DecidableEq, Repr

/-- Functions of `Symbol` and of its prototype. -/
inductive SymbolNative where
  | construct | for | keyFor | description | toString
deriving DecidableEq, Repr

/-- Functions of `Date` and of its prototype. -/
inductive DateNative where
  | construct | now | getTime
deriving DecidableEq, Repr

/-- Functions of `RegExp` and of its prototype. -/
inductive RegExpNative where
  | construct | source | flags
deriving DecidableEq, Repr

/-- Functions of `Promise`, and the two functions that settle one, which carry it in their slot. -/
inductive PromiseNative where
  | construct | resolve | reject | fulfil | refuse
deriving DecidableEq, Repr

/-- Functions of `ArrayBuffer` and of its prototype. -/
inductive BufferNative where
  | construct | byteLength | maxByteLength | resizable | detached | resize | transfer
deriving DecidableEq, Repr

/-- Functions of `Uint8Array` and of its prototype. -/
inductive BytesNative where
  | construct | length | buffer | byteOffset
deriving DecidableEq, Repr

/-- Functions of the constructors of primitive values and of their prototypes. -/
inductive PrimitiveNative where
  | number | string | boolean | bigint | valueOf | toString
deriving DecidableEq, Repr

/-- Functions of `Math`. -/
inductive MathNative where
  | floor | abs | max | min
deriving DecidableEq, Repr

/-- Functions of `JSON`. -/
inductive JsonNative where
  | stringify | parse
deriving DecidableEq, Repr

/-- Functions by which scripts reach the runtime. -/
inductive RuntimeNative where
  | registerFunction | registerClass | registerAccessors | registerHostObject
  | ensureSerializable | serialize | deserialize
deriving DecidableEq, Repr

/-- The built-in functions. -/
inductive Native where
  /-- Takes anything and does nothing. -/
  | empty
  | object (op : ObjectNative)
  | function (op : FunctionNative)
  | array (op : ArrayNative)
  | map (op : MapNative)
  | set (op : SetNative)
  | symbol (op : SymbolNative)
  | date (op : DateNative)
  | regexp (op : RegExpNative)
  | error (kind : ErrorKind)
  | errorToString
  | promise (op : PromiseNative)
  | buffer (op : BufferNative)
  | bytes (op : BytesNative)
  | primitive (op : PrimitiveNative)
  | math (op : MathNative)
  | json (op : JsonNative)
  | consoleLog
  | runtime (op : RuntimeNative)
deriving DecidableEq, Repr

/-- The function may stand behind `new`. -/
def Native.isConstructor : Native → Bool
  | object .construct | function .construct | array .construct | map .construct | set .construct
  | date .construct | regexp .construct | error _ | promise .construct | buffer .construct
  | bytes .construct | primitive .number | primitive .string | primitive .boolean => true
  | _ => false

end Stasis
