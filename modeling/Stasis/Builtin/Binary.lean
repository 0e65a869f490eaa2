import Stasis.Builtin.Invocation
import Stasis.Resume

/-!
# Functions of buffers

A buffer holds bytes; a window shows some of them as numbers.

* `Buffer.resized`: the bytes cut or filled up with zeros.
* `applyBuffer`, `applyBytes`: the functions of `ArrayBuffer` and of `Uint8Array`.
-/

namespace Stasis

/-- The buffer with another number of bytes; new ones are zero. -/
def Buffer.resized (b : Buffer) (length : Nat) : Buffer :=
  { b with bytes := ⟨Array.ofFn fun i : Fin length => (b.bytes.data[i.val]?).getD 0⟩ }

/-- A buffer of zeros. -/
def Buffer.ofLength (length : Nat) : Buffer := Buffer.resized {} length

/-- The buffer that a function is called on. -/
def bufferReceiver (v : Value) : Run (ObjectId × Buffer) := do
  let refuse : Run (ObjectId × Buffer) := do
    throwType ("Method ArrayBuffer.prototype method called on incompatible receiver "
      ++ (← display v))
  match v with
  | .object id =>
    match ← kindOf id with
    | .buffer b => return (id, b)
    | _ => refuse
  | _ => refuse

/-- The window that a function is called on: its buffer, where it begins, and its length. -/
def windowReceiver (v : Value) : Run (ObjectId × Nat × Nat) := do
  let refuse : Run (ObjectId × Nat × Nat) := throwType "this is not a typed array."
  match v with
  | .object id =>
    match ← kindOf id with
    | .bytes buffer offset length => return (buffer, offset, length)
    | _ => refuse
  | _ => refuse

/-- Changes the content of a buffer. -/
def changeBuffer (id : ObjectId) (f : Buffer → Buffer) : Run Unit := do
  match ← kindOf id with
  | .buffer b => setKind id (.buffer (f b))
  | _ => return ()

variable [Machine]

/-- A number of bytes that is given. -/
def toIndex (v : Value) (what : String) : Run Nat := do
  match v with
  | .undefined => return 0
  | _ =>
    let x ← toNumber v
    let n := if x.isNaN then 0 else Number.truncated x
    if !(0 ≤ n && n ≤ 9007199254740991) then
      throwRange ("Invalid " ++ what ++ ": " ++ Number.scriptText n)
    return (Number.integerPart n).toNat

/-- The limit of a resizable buffer that options give. -/
def maxLengthOption (options : Value) : Run (Option Nat) := do
  match options with
  | .object id =>
    match ← getOf id "maxByteLength" with
    | .undefined => return none
    | v => return some (← toIndex v "array buffer max length")
  | _ => return none

/-- A new buffer. -/
def constructBuffer (c : Invocation) : Run Value := do
  if c.newTarget.isNone then throwType "Constructor ArrayBuffer requires 'new'"
  let length ← checkSize (← toIndex (c.arg 0) "array buffer length") "array buffer length"
  let maxLength ← maxLengthOption (c.arg 1)
  if maxLength.any fun max => decide (max < length) then
    throwRange "Invalid array buffer max length"
  let prototype ← prototypeFrom c.newTarget (← get).known.buffer
  return .object (← allocate (some prototype) (.buffer { Buffer.ofLength length with maxLength }))

/-- Gives a buffer another length. -/
def resizeBuffer (c : Invocation) : Run Value := do
  let (id, b) ← bufferReceiver c.this
  match b.maxLength with
  | none =>
    throwType "Method ArrayBuffer.prototype.resize called on incompatible receiver #<ArrayBuffer>"
  | some max =>
    if b.detached then
      throwType "Cannot perform ArrayBuffer.prototype.resize on a detached ArrayBuffer"
    let length ← checkSize (← toIndex (c.arg 0) "length") "array buffer length"
    if max < length then
      throwRange "ArrayBuffer.prototype.resize: Invalid length parameter"
    changeBuffer id fun b => b.resized length
    return .undefined

/-- The length that a transferred buffer is given, if it is. -/
def transferLength (b : Buffer) (v : Value) : Run (Option Nat) := do
  match v with
  | .number _ | .text _ =>
    let length ← checkSize (← toIndex v "length") "array buffer length"
    if b.maxLength.any fun max => decide (max < length) then
      throwRange "ArrayBuffer.prototype.transfer: Invalid length parameter"
    return some length
  | _ => return none

/-- Moves the bytes of a buffer to a new one. -/
def transferBuffer (c : Invocation) : Run Value := do
  let (id, b) ← bufferReceiver c.this
  if b.detached then
    throwType "Cannot perform ArrayBuffer.prototype.transfer on a detached ArrayBuffer"
  let moved ← match ← transferLength b (c.arg 0) with
    | some length => pure (b.resized length)
    | none => pure b
  changeBuffer id fun b => { b with bytes := ByteArray.empty, detached := true }
  return .object (← newBuffer moved)

/-- A length as a value. -/
def lengthValue (n : Nat) : Value := .number (Float.ofNat n)

/-- Calls a function of `ArrayBuffer`. -/
def applyBuffer (op : BufferNative) (c : Invocation) : Run Value := do
  match op with
  | .construct => constructBuffer c
  | .byteLength =>
    let (_, b) ← bufferReceiver c.this
    return lengthValue (if b.detached then 0 else b.bytes.size)
  | .maxByteLength =>
    let (_, b) ← bufferReceiver c.this
    return lengthValue (if b.detached then 0 else b.maxLength.getD b.bytes.size)
  | .resizable => return .bool (← bufferReceiver c.this).2.maxLength.isSome
  | .detached => return .bool (← bufferReceiver c.this).2.detached
  | .resize => resizeBuffer c
  | .transfer => transferBuffer c

/-- The window that arguments ask for on a buffer. -/
def windowOn (id : ObjectId) (b : Buffer) (c : Invocation) : Run (ObjectId × Nat × Nat) := do
  let available := b.bytes.size
  let offset ← toIndex (c.arg 1) "offset"
  if available < offset then
    throwRange ("Start offset " ++ toString offset ++ " is outside the bounds of the buffer")
  let length ← match c.arg 2 with
    | .undefined => pure (available - offset)
    | v => toIndex v "typed array length"
  if available < offset + length then
    throwRange ("Invalid typed array length: " ++ toString length)
  return (id, offset, length)

/-- The window on a new buffer that holds the given numbers. -/
def windowOfItems (items : List Value) : Run (ObjectId × Nat × Nat) := do
  let bytes ← items.mapM fun item => do return Number.toByte (← toNumber item)
  return (← newBuffer { bytes := ⟨bytes.toArray⟩ }, 0, bytes.length)

/-- A new window. -/
def constructBytes (c : Invocation) : Run Value := do
  if c.newTarget.isNone then throwType "Constructor Uint8Array requires 'new'"
  let source := c.arg 0
  let (buffer, offset, length) ← match source with
    | .object id => do
      match ← kindOf id with
      | .buffer b => windowOn id b c
      | _ => windowOfItems (← iterated source)
    | v => do
      let length ← checkSize (← toIndex v "typed array length") "typed array length"
      pure (← newBuffer (Buffer.ofLength length), 0, length)
  let prototype ← prototypeFrom c.newTarget (← get).known.bytes
  return .object (← allocate (some prototype) (.bytes buffer offset length))

/-- Calls a function of `Uint8Array`. -/
def applyBytes (op : BytesNative) (c : Invocation) : Run Value := do
  match op with
  | .construct => constructBytes c
  | .length =>
    let (_, _, length) ← windowReceiver c.this
    return lengthValue length
  | .buffer => return .object (← windowReceiver c.this).1
  | .byteOffset =>
    let (_, offset, _) ← windowReceiver c.this
    return lengthValue offset

end Stasis
