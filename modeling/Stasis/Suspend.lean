import Stasis.Envelope
import Stasis.Realm.Variable
import Stasis.Script.Parser

/-!
# Suspending values

A value is suspended with everything that it refers to. An entry has its place before its object is
looked at, so a cycle ends at the entry where it began.

* `suspendValue`: a tagged value, with the entries that it needs.
* `serialize`: an envelope for a value.
* `registerHostRoot`: the same walk, made to note the paths of what is reached.
-/

namespace Stasis

/-- An action of a walk through objects. -/
abbrev Walk (α : Type) := StateT Pass (ExceptT Fault (Recorded Realm)) α

/-- Reads the realm. -/
def realm : Run Realm := get

/-- Own properties that functions of old have are left out. -/
def ObjectType.skips (type : ObjectType) (key : Key) : Bool :=
  match type, key with
  | .function, .text s => s == "arguments" || s == "caller" || s == "callee"
  | _, _ => false

/-- The type is for the object. -/
def Realm.typeClaims (r : Realm) (id : ObjectId) (kind : Kind) (type : ObjectType) : Bool :=
  match type with
  | .classPrototype => (r.registry.classOf? id).isSome
  | _ => type.claims kind

/-- The written form of a number. -/
def taggedNumber (x : Float) : Tagged :=
  if x.isNaN then .nan
  else if x.isInf then if Number.isNegative x then .negativeInfinity else .infinity
  else if x == 0 && Number.isNegative x then .negativeZero
  else .simple (jsonOfNumber x)

/-- The written form of a symbol. -/
def taggedSymbol (id : SymbolId) : Run Tagged := do
  let r ← get
  match r.symbols.keyFor? id with
  | some key => return .sharedSymbol key
  | none =>
    let (reference, references) := r.references.ofSymbol id
    set { r with references }
    return .ownSymbol reference (r.symbols.description? id)

/-- The reference of an object. -/
def referenceFor (id : ObjectId) : Run String :=
  modifyGet fun r =>
    let (reference, references) := r.references.ofObject id
    (reference, { r with references })

/-- Gives an object its path unless it has one. -/
def recordPath (id : ObjectId) (path : String) : Run Unit :=
  modify fun r => { r with hostPaths := (r.hostPaths.record id path).1 }

/-- How properties under a key are reached: the value, the getter and the setter. -/
def Realm.stepsOf (r : Realm) : Key → PathStep × PathStep × PathStep
  | .text s => (.property s, .getter s, .setter s)
  | .symbol id =>
    match r.symbols.keyFor? id with
    | some key => (.symbolProperty key, .unknown, .unknown)
    | none => (.unknown, .unknown, .unknown)

/-- The function is one of a script. -/
def Kind.isScripted : Kind → Bool
  | .function (.script ..) | .function (.class ..) => true
  | _ => false

/-- Own name of a function, or a word in its place. -/
def functionName (id : ObjectId) : Run String := return Realm.nameOr "anonymous" (← objectAt id)

/-- A function in messages. -/
def describeFunction (id : ObjectId) : Run String := do
  let name ← functionName id
  match ← kindOf id with
  | .function (.native ..) => return "native function " ++ name
  | .function (.class ..) => return "class " ++ name
  | _ => return "function " ++ name

/-- The label of expressions that come from an envelope. -/
def recordedLabel : String := "<reconstruct>"

variable [Machine]

/-- The present values of captured names. -/
def capturedValues (scope : ScopeSource) : Run (List (String × Value)) := do
  match scope with
  | .thunk function =>
    match ← call (.object function) .undefined [] with
    | .object id =>
      let entries := (← objectAt id).ownEntries.filter fun (_, d) => d.isEnumerable
      (entries.filterMap fun (key, _) => key.text?).mapM fun name => do
        return (name, ← getOf id name)
    | _ => throwType "scope thunk must return an object"
  | .table table =>
    let names := match (← get).scopes[table]? with
      | some t => t.entries.keys
      | none => []
    names.mapM fun name => do return (name, ← readScope table name)

/-- The value of the expression of a member, for a class. -/
def evalMember (class_ : Value) (expression : String) : Run Value := do
  match Script.parseExpression expression recordedLabel with
  | .error e =>
    raise (.invalidEnvelope ("member expression does not parse: " ++ e.describe))
  | .ok e =>
    let env ← newBlock (← get).globalEnv
    declare env classPlaceholder { value := class_, mutable := false }
    eval e env

/-- A text that a property holds or becomes; nothing for `undefined`. -/
def textOf? (v : Value) (name : String) : Run (Option String) := do
  match ← getNamed v name with
  | .undefined => return none
  | property => return some (← toText property)

/-- What is one step behind a path. A walk that stops leaves out objects without a path. -/
def child (v : Value) (parent : Option String) (step : PathStep) : Walk Tagged := do
  let path := step.apply parent
  let pass ← get
  if pass.stop && path.isNone && v.isObject then return .omitted
  let (tagged, pass) ← suspendAt pass v path
  set pass
  return tagged

/-- The payload of a function. -/
def functionPayload (id : ObjectId) (path : Option String) : Walk Payload := do
  match (← realm).registry.get? id with
  | some (.source scope text) =>
    let captures ← (← capturedValues scope).mapM fun (name, v) => do
      return (name, ← child v path .unknown)
    return .source captures text
  | some (.member owner expression) =>
    let current ← evalMember (.object owner) expression
    let class_ ← child (.object owner) path .unknown
    -- the class may hold another function under this key by now
    return .member class_ expression (current.object? != some id)
  | none =>
    -- a function of the host is found again by its path
    if path.isSome || (← realm).hostPaths.contains id then return .empty
    let reference ← referenceFor id
    raise (.unregistered reference (← describeFunction id))

/-- What an object holds besides its properties. -/
def payloadOf (type : ObjectType) (id : ObjectId) (path : Option String) : Walk Payload := do
  match type, ← kindOf id with
  | .classPrototype, _ =>
    let owner : Value := match (← realm).registry.classOf? id with
      | some class_ => .object class_
      | none => .undefined
    return .classPrototype (← child owner path .unknown)
  | .function, _ => functionPayload id path
  | .map, .map entries =>
    return .map (← entries.entries.mapM fun (k, v) => do
      let key ← child k.toValue path .unknown
      let value ← child v path .unknown
      return (key, value))
  | .set, .set elements =>
    return .set (← elements.keys.zipIdx.mapM fun (k, index) =>
      child k.toValue path (.setElement index))
  | .wrapper, .wrapper v => return .wrapper (← child v path .wrappedValue)
  | .regexp, .regexp pattern flags => return .regexp pattern flags
  | .error, _ =>
    let message ← textOf? (.object id) "message"
    let name ← textOf? (.object id) "name"
    let stack ← textOf? (.object id) "stack"
    return .error (message.getD "") (name.getD ErrorKind.error.name) stack
  | .date, .date time => return .date (if time.isFinite then some time else none)
  | .promise, .promise (.fulfilled v) => return .fulfilled (← child v path .unknown)
  | .promise, .promise (.rejected v) => return .rejected (← child v path .unknown)
  | .promise, _ => return .pending
  | .buffer, .buffer b =>
    let length := b.bytes.size
    return .buffer b.detached b.maxLength.isSome length (b.maxLength.getD length)
      (Text.hexOfBytes b.bytes.toList)
  | .bytes, .bytes buffer offset length =>
    return .bytes (← child (.object buffer) path .unknown) offset length
  | _, _ => return .empty

/-- The written form of a property. -/
def slotOf (key : Key) (d : Descriptor) (path : Option String) : Walk Slot := do
  let (valueStep, getStep, setStep) := (← realm).stepsOf key
  match d with
  | .data v writable enumerable configurable =>
    let value ← child v path valueStep
    return { value, writable, enumerable, configurable }
  | .accessor g s enumerable configurable =>
    let half (id : Option ObjectId) : Value := (id.map Value.object).getD .undefined
    let get ← child (half g) path getStep
    let set ← child (half s) path setStep
    return { get, set, enumerable, configurable }

/-- The written form of a key. -/
def taggedKey (key : Key) : Run Tagged :=
  match key with
  | .text s => return .simple (.text s)
  | .symbol id => taggedSymbol id

/-- The entry of an object. -/
def entryOf (id : ObjectId) (reference : String) (path : Option String) : Walk Entry := do
  let o ← objectAt id
  let r ← realm
  let types := r.objectTypes.filter (r.typeClaims id o.kind)
  if 1 < types.length then
    raise (.ambiguousEncoder reference (types.map ObjectType.name))
  let type := types.head?
  let kept := o.ownEntries.filter fun (key, _) => !type.any fun t => t.skips key
  let properties ← kept.mapM fun (key, d) => do
    let tagged ← taggedKey key
    return (tagged, ← slotOf key d path)
  -- scripts may have run by now, so the object is read anew
  let prototype : Value := match (← objectAt id).prototype with
    | some p => .object p
    | none => .null
  let prototype ← child prototype path .prototype
  let (objectType, payload) ← match type with
    | some t => do pure (t.name, (← payloadOf t id path).toJson)
    | none => pure (plainType, Json.null)
  return { objectType, prototype, extensible := (← objectAt id).extensible, properties, payload }

/-- The written form of an object, which gets an entry unless it has one. Objects of the host go by
their path. -/
def suspendObject (id : ObjectId) (path : Option String) : Walk Tagged := do
  match (← realm).hostPaths.pathOf? id with
  | some known => return .hostObject known
  | none =>
    -- functions of scripts are no part of the host
    if (← get).stop && (← kindOf id).isScripted then return .omitted
    match path with
    | some path => recordPath id path
    | none => pure ()
    let reference ← referenceFor id
    if !(← get).entries.contains reference then
      -- the place is taken before the object is looked at, which ends every cycle
      modify fun p => { p with entries := p.entries.insert reference none }
      let entry ← entryOf id reference path
      modify fun p => { p with entries := p.entries.insert reference (some entry) }
    return .entry reference

/-- The written form of a value. -/
def taggedValue (v : Value) (path : Option String) : Walk Tagged := do
  match v with
  | .undefined => return .undefined
  | .null => return .simple .null
  | .bool b => return .simple (.bool b)
  | .text s => return .simple (.text s)
  | .number x => return taggedNumber x
  | .bigint n => return .bigint (Number.integerText n)
  | .symbol id => taggedSymbol id
  | .object id => suspendObject id path

/-- The written form of a value, with the entries that it needs. -/
def suspendValue (pass : Pass) (v : Value) (path : Option String) : Run (Tagged × Pass) :=
  (taggedValue v path).run pass

/-- The entries of a walk that is over. -/
def finishedEntries : List (String × Option Entry) → Except EngineError (List (String × Entry))
  | [] => .ok []
  | (reference, none) :: _ => .error (.unresolvedPlaceholder reference)
  | (reference, some entry) :: rest => do return (reference, entry) :: (← finishedEntries rest)

/-- Walks through everything that a value refers to. -/
def walkFrom (known : Table String Entry) (stop : Bool) (v : Value) (path : Option String) :
    Run Envelope := do
  let (root, pass) ← suspendAt { entries := known.map some, stop } v path
  let entries ← ofExcept (finishedEntries pass.entries.entries)
  return { entries := Table.ofList entries, root }

/-- How a value is suspended. -/
structure SuspendOptions where
  /-- Entries of an envelope that the new one goes on with. -/
  known : Table String Entry := {}
  /-- The path of the value. -/
  path : Option String := none
  /-- Leave out what no path leads to. -/
  stop : Bool := false

/-- An envelope for a value. -/
def serialize (v : Value) (options : SuspendOptions) : Run Envelope :=
  let detail : Except EngineError Envelope → Run String
    | .ok e => return "entries=" ++ toString e.entries.size
    | .error _ => return "serialize"
  noted "serializer" "serialize" detail do
    let e ← walkFrom options.known options.stop v options.path
    if (← get).config.verifyWireFormat then ofExcept e.checkSafe
    return e

/-- Notes the paths of everything that can be reached from a value. The answer is how many objects
have got one. -/
def registerHostRoot (v : Value) (path : String) : Run Nat := do
  let before := (← get).hostPaths.paths.size
  let detail : Except EngineError Nat → Run String
    | .ok recorded => return "path=" ++ path ++ " recorded=" ++ toString recorded
    | .error _ => return "path=" ++ path
  noted "host_paths" "register_host_root" detail do
    let _ ← walkFrom {} true v (some path)
    return (← get).hostPaths.paths.size - before

end Stasis
