import Stasis.Suspend

/-!
# Resuming values

An envelope is read in three sweeps. First a bare object is made for every entry that the value
needs at once; then one for everything that can be reached from these; then the objects are linked,
in the order in which they were made. A function may run while its envelope is still being read, and
asks the open session for its captured names.

* `isAccessPath`: the expressions by which objects of the host are found.
* `resolveTagged`: the value that a tagged value stands for.
* `deserialize`: the value of an envelope.
-/

namespace Stasis

open Script (Access Element Expr)

/-- Functions that a path may call. -/
def isReflective (name : String) : Bool :=
  ["getPrototypeOf", "getOwnPropertyDescriptor", "for", "valueOf", "values"].contains name

/-- The expression of a call in a path. -/
def isReflectiveCallee : Expr → Bool
  | .member _ (.named name _) _ => isReflective name
  | _ => false

mutual

/-- The expression reads members and makes reflective calls, and does nothing else. -/
def isAccessPath : Expr → Bool
  | .ident .. | .text .. | .number .. => true
  | .member o a _ => isAccessPath o && isAccessKey a
  | .call callee arguments _ =>
    isReflectiveCallee callee && isAccessPath callee && areAccessPaths arguments
  | .array [some x] _ => isSpreadPath x
  | _ => false

/-- The key of a member is a path. -/
def isAccessKey : Access → Bool
  | .named .. => true
  | .computed e => isAccessPath e

/-- Every argument is a path, and none is spread. -/
def areAccessPaths : List Element → Bool
  | [] => true
  | ⟨spread, e⟩ :: rest => !spread && isAccessPath e && areAccessPaths rest

/-- The element is a path that is spread. -/
def isSpreadPath : Element → Bool
  | ⟨spread, e⟩ => spread && isAccessPath e

end

/-- Refuses an envelope. -/
def refuse {α : Type} (detail : String) : Run α := raise (.invalidEnvelope detail)

/-- An open session. -/
def sessionAt (id : SessionId) : Run Session := do
  match (← get).sessions[id]? with
  | some s => return s
  | none => refuse ("reconstruction session " ++ toString id ++ " is closed")

/-- Changes an open session. -/
def changeSession (id : SessionId) (f : Session → Session) : Run Unit :=
  modify fun r => { r with sessions := r.sessions.modify id f }

/-- The type of a name, if it is the name of one. Two types of one name are refused. -/
def typeNamed (name : String) : Run (Option ObjectType) := do
  match (← get).objectTypes.filter fun t => t.name == name with
  | [] => return none
  | [t] => return some t
  | _ => raise (.duplicateEncoder name)

/-- The payload of an entry. -/
def readPayload (type : ObjectType) (j : Json) : Run Payload :=
  match Payload.ofJson? type j with
  | some p => return p
  | none => refuse ("malformed `" ++ type.name ++ "` payload: it does not fit")

/-- The value of a value that an interchange text holds as it is. -/
def simpleValue (j : Json) : Run Value :=
  match j with
  | .null => return .null
  | .bool b => return .bool b
  | .text s => return .text s
  | .number n => return .number n.toFloat
  | .array _ | .object _ => refuse ("simple value " ++ j.compact ++ " is not a JSON primitive")

/-- The symbol of a reference, made when the reference is first read. -/
def resumedSymbol (reference : String) (description : Option String) : Run Value :=
  modifyGet fun r =>
    match r.references.symbol? reference with
    | some id => (.symbol id, r)
    | none =>
      let (id, symbols) := r.symbols.create description
      (.symbol id, { r with symbols, references := r.references.bindSymbol reference id })

/-- The symbol that every realm has under a key. -/
def sharedSymbol (key : String) : Run Value :=
  modifyGet fun r =>
    let (id, symbols) := r.symbols.shared key
    (.symbol id, { r with symbols })

/-- The message of errors by which unsettled promises are resumed. -/
def unsettledMessage : String :=
  "suspending the realm rejects every pending promise; settle promises before serializing"

/-- Adds a promise. -/
def newPromise (state : PromiseState) : Run ObjectId := do
  allocate (some (← get).known.promise) (.promise state)

/-- Adds a buffer. -/
def newBuffer (b : Buffer) : Run ObjectId := do
  allocate (some (← get).known.buffer) (.buffer b)

/-- Records a function unless it is recorded. -/
def registerFunction (id : ObjectId) (record : Registration) : Run Unit :=
  modify fun r => { r with registry := (r.registry.register id record).1 }

/-- Records the functions that a property of a class holds. -/
def registerMember (class_ : ObjectId) (name : String) (static : Bool) (d : Descriptor) :
    Run Unit := do
  match d with
  | .data (.object f) .. =>
    if f != class_ && (← get).store.isFunction f then
      registerFunction f (.member class_ (memberExpression name static))
  | .data .. => return ()
  | .accessor g s .. =>
    match g with
    | some f => registerFunction f (.member class_ (accessorExpression name static true))
    | none => pure ()
    match s with
    | some f => registerFunction f (.member class_ (accessorExpression name static false))
    | none => pure ()

/-- Records the members of an object that have a text for their key, but for one. -/
def registerMembersOf (holder class_ : ObjectId) (except : String) (static : Bool) : Run Unit := do
  for (key, d) in (← objectAt holder).ownEntries do
    match key with
    | .text name => if name != except then registerMember class_ name static d
    | .symbol _ => pure ()

/-- Records the members of a class, and the class of its prototype. -/
def registerClassMembers (class_ : ObjectId) : Run Unit := do
  registerMembersOf class_ class_ "prototype" true
  match (← objectAt class_).own? (.text "prototype") with
  | some (.data (.object prototype) ..) =>
    modify fun r => { r with registry := r.registry.registerPrototype prototype class_ }
    registerMembersOf prototype class_ "constructor" false
  | _ => return ()

/-- The object is a class. -/
def Kind.isClass : Kind → Bool
  | .function (.class ..) => true
  | _ => false

variable [Machine]

/-- The object of the host that a path leads to. -/
def resolvePath (path : String) : Run Value := do
  match Script.parseExpression path recordedLabel with
  | .error e => refuse ("host path `" ++ path ++ "` does not parse: " ++ e.describe)
  | .ok e =>
    if !isAccessPath e then refuse ("host path `" ++ path ++ "` is not an access path")
    eval e (← get).scriptEnv

/-- The value of a recorded source, with a scope table for its captured names. -/
def evalSource (text : String) (table : TableId) : Run Value := do
  match Script.parseExpression text recordedLabel with
  | .error e => refuse ("recorded source does not parse: " ++ e.describe)
  | .ok e =>
    let env ← newEnvironment { parent := some (← get).globalEnv, scope := some table }
    eval e env

/-- Makes a function from its source and records it. -/
def remakeFunction (text : String) (table : TableId) : Run ObjectId := do
  match ← evalSource text table with
  | .object id =>
    if !(← get).store.isFunction id then
      refuse "recorded source did not produce a function"
    registerFunction id (.source (.table table) text)
    if (← kindOf id).isClass then registerClassMembers id
    return id
  | _ => refuse "recorded source did not produce a function"

/-- A class made again from its source, so that members are what they were at first. A class
without a source is taken as it is. -/
def remadeClass (class_ : ObjectId) : Run ObjectId := do
  match (← get).registry.get? class_ with
  | some (.source (.table table) text) => remakeFunction text table
  | some (.source scope text) =>
    let captured ← capturedValues scope
    let entries := Table.ofList (captured.map fun (name, v) => (name, ScopeEntry.resolved v))
    remakeFunction text (← newScope { entries })
  | _ => return class_

/-- A member of a class that has been resumed. -/
def resumeMember (session : SessionId) (owner : Tagged) (expression : String) (detached : Bool) :
    Run Value := do
  match ← resolve session owner with
  | .object class_ =>
    -- the class has lost the member, but one made from the same source still has it
    let class_ ← if detached then remadeClass class_ else pure class_
    let member ← evalMember (.object class_) expression
    match member with
    | .object f =>
      if (← get).store.isFunction f then
        registerFunction f (.member class_ expression)
        return member
      else noFunction
    | _ => noFunction
  | _ => refuse "class member entry names a non-object class"
where
  noFunction : Run Value :=
    refuse ("class member `" ++ expression ++ "` did not evaluate to a function")

/-- A buffer with the content that is written. -/
def resumeBuffer (detached resizable : Bool) (length maxLength : Nat) (content : String) :
    Run Value := do
  match Text.bytesOfHex content with
  | .error e => refuse ("array-buffer content is not hex: " ++ e.message)
  | .ok bytes =>
    let size := bytes.length
    if size ≠ length then
      refuse ("array-buffer content holds " ++ toString size ++ " bytes, byteLength says "
        ++ toString length)
    if resizable && maxLength < size then
      refuse "array-buffer maxByteLength below byteLength"
    return .object (← newBuffer {
      bytes := ⟨bytes.toArray⟩
      maxLength := if resizable then some maxLength else none
      detached })

/-- A window on a buffer. -/
def resumeBytes (session : SessionId) (viewed : Tagged) (offset length : Nat) : Run Value := do
  match ← resolve session viewed with
  | .object buffer =>
    match ← kindOf buffer with
    | .buffer b =>
      let size := b.bytes.size
      if size < offset + length then
        refuse ("uint8-array view " ++ toString offset ++ "+" ++ toString length
          ++ " exceeds its " ++ toString size ++ "-byte buffer")
      return .object (← allocate (some (← get).known.bytes) (.bytes buffer offset length))
    | _ => refuse "uint8-array buffer is not an ArrayBuffer"
  | _ => refuse "uint8-array buffer is not an object"

/-- A bare object for a payload; whatever can lie on a cycle is linked later. -/
def bareObject (session : SessionId) (p : Payload) : Run Value := do
  match p with
  | .empty => return .undefined
  | .classPrototype owner =>
    let prototype ← getNamed (← resolve session owner) "prototype"
    if !prototype.isObject then
      refuse "class-prototype entry names a class without a prototype"
    return prototype
  | .source captures text =>
    let entries := Table.ofList (captures.map fun (name, t) => (name, ScopeEntry.pending t))
    let table ← newScope { entries, session := some session }
    return .object (← remakeFunction text table)
  | .member owner expression detached => resumeMember session owner expression detached
  | .map _ => return .object (← allocate (some (← get).known.map) (.map {}))
  | .set _ => return .object (← allocate (some (← get).known.set) (.set {}))
  | .wrapper t =>
    let inner ← resolve session t
    if inner.isObject || inner.isNullish then
      refuse "primitive-wrapper payload must hold a primitive"
    return .object (← toObject inner)
  | .regexp pattern flags =>
    return .object (← allocate (some (← get).known.regexp) (.regexp pattern flags))
  | .error message _ stack =>
    let id ← allocate (some ((← get).known.errors .error)) .error
    defineOrThrow id (.text "message") (.hidden (.text message))
    match stack with
    | some s => defineOrThrow id (.text "stack") (.hidden (.text s))
    | none => pure ()
    return .object id
  | .date time =>
    return .object (← allocate (some (← get).known.date) (.date (time.getD (0 / 0))))
  | .pending =>
    let reason ← newError .error unsettledMessage
    return .object (← newPromise (.rejected (.object reason)))
  | .fulfilled _ | .rejected _ => return .object (← newPromise .pending)
  | .buffer detached resizable length maxLength content =>
    resumeBuffer detached resizable length maxLength content
  | .bytes viewed offset length => resumeBytes session viewed offset length

/-- A bare object for an entry. -/
def bareEntry (session : SessionId) (e : Entry) : Run Value := do
  if e.objectType = plainType then return .object (← newObject)
  match ← typeNamed e.objectType with
  | none => raise (.unknownType e.objectType)
  -- arrays have no payload; those of maps and sets are read when these are linked
  | some .array => return .object (← newArray [])
  | some .map => return .object (← allocate (some (← get).known.map) (.map {}))
  | some .set => return .object (← allocate (some (← get).known.set) (.set {}))
  | some t =>
    let v ← bareObject session (← readPayload t e.payload)
    if !v.isObject then refuse ("`" ++ e.objectType ++ "` skeleton is not an object")
    return v

/-- The object of a reference, made when it is first needed. -/
def resolveEntry (session : SessionId) (reference : String) : Run Value := do
  let s ← sessionAt session
  match s.made.find? reference, s.entries.find? reference with
  | some v, _ => return v
  | none, found =>
    -- an entry whose bare object needs itself can never be made
    if s.unfinished.contains reference then
      refuse ("cyclic initialization of `" ++ reference ++ "`")
    match found with
    | none => raise (.missingEntry reference)
    | some e =>
      changeSession session fun s => { s with unfinished := reference :: s.unfinished }
      let outcome ← attempt (bareEntry session e)
      changeSession session fun s => { s with unfinished := s.unfinished.erase reference }
      let v ← ofExcept outcome
      changeSession session fun s => { s with made := s.made.insert reference v }
      return v

/-- The value that a tagged value stands for. -/
def resolveTagged (session : SessionId) (t : Tagged) : Run Value := do
  match t with
  | .simple j => simpleValue j
  | .nan => return .number (0 / 0)
  | .infinity => return .number (1 / 0)
  | .negativeInfinity => return .number (-1 / 0)
  | .negativeZero => return .number (-0.0)
  | .bigint digits =>
    match Number.readInteger 10 Number.minWide Number.maxWide digits.toList with
    | some n => return .bigint n
    | none => refuse ("bigint `" ++ digits ++ "` is not a decimal integer in range")
  | .undefined | .omitted => return .undefined
  | .ownSymbol reference description => resumedSymbol reference description
  | .sharedSymbol key => sharedSymbol key
  | .hostObject path => resolvePath path
  | .entry reference => resolveEntry session reference

/-- Gives an object what its bare form could not hold. -/
def linkPayload (session : SessionId) (id : ObjectId) (type : ObjectType) (j : Json) :
    Run Unit := do
  match type with
  | .map | .set | .function | .promise =>
    match ← readPayload type j with
    | .map entries =>
      for (k, v) in entries do
        let key ← resolve session k
        let value ← resolve session v
        match ← kindOf id with
        | .map present => setKind id (.map (present.insert (CollectionKey.ofValue key) value))
        | _ => pure ()
    | .set elements =>
      for t in elements do
        let key ← resolve session t
        match ← kindOf id with
        | .set present => setKind id (.set (present.insert (CollectionKey.ofValue key) ()))
        | _ => pure ()
    | .source captures _ =>
      match (← get).registry.get? id with
      | some (.source (.table table) _) =>
        -- all of them are made before the first one is settled here
        let values ← captures.mapM fun (name, t) => do return (name, ← resolve session t)
        for (name, v) in values do
          setCaptured table name v
        changeScope table fun t => { t with session := none }
      | _ => return ()
    | .fulfilled t => settle (.fulfilled (← resolve session t))
    | .rejected t => settle (.rejected (← resolve session t))
    | _ => return ()
  | _ => return ()
where
  settle (state : PromiseState) : Run Unit := do
    match ← kindOf id with
    | .promise _ => setKind id (.promise state)
    | _ => return ()

/-- Half of an accessor. -/
def resolveHalf (session : SessionId) (t : Tagged) (half : String) : Run (Option ObjectId) := do
  let v ← resolve session t
  match v with
  | .undefined => return none
  | .object f => if (← get).store.isFunction f then return some f else bad v
  | _ => bad v
where
  bad (v : Value) : Run (Option ObjectId) := do
    refuse ("accessor " ++ half ++ " is not a function: " ++ (← display v))

/-- The property that is written, on top of the present one. Parts that are left out stay as they
are. -/
def resolveSlot (session : SessionId) (s : Slot) (present : Option Descriptor) :
    Run Descriptor := do
  let enumerable := (s.enumerable.or (present.map Descriptor.isEnumerable)).getD false
  let configurable := (s.configurable.or (present.map Descriptor.isConfigurable)).getD false
  let presentAccessor := present.any fun d => !d.isData
  if s.get.isSome || s.set.isSome || (s.value.isNone && s.writable.isNone && presentAccessor) then
    let (oldGet, oldSet) := match present with
      | some (.accessor g s ..) => (g, s)
      | _ => (none, none)
    let get ← match s.get with
      | some t => resolveHalf session t "get"
      | none => pure oldGet
    let set ← match s.set with
      | some t => resolveHalf session t "set"
      | none => pure oldSet
    return .accessor get set enumerable configurable
  else
    let v ← match s.value with
      | some t => resolve session t
      | none => pure ((present.bind Descriptor.value?).getD .undefined)
    let presentWritable := (present.filter Descriptor.isData).map Descriptor.isWritable
    return .data v ((s.writable.or presentWritable).getD false) enumerable configurable

/-- The key that is written. -/
def resolveKey (session : SessionId) (reference : String) (t : Tagged) : Run Key := do
  match ← resolve session t with
  | .text s => return .text s
  | .symbol id => return .symbol id
  | other =>
    refuse ("`" ++ reference ++ "` has a property key " ++ (← display other)
      ++ " that is neither string nor symbol")

/-- Gives an object a property that is written. -/
def linkProperty (session : SessionId) (reference : String) (id : ObjectId) (k : Tagged)
    (s : Slot) : Run Unit := do
  let key ← resolveKey session reference k
  let present := (← objectAt id).own? key
  let d ← resolveSlot session s present
  -- what is already there needs no right to be defined
  if present.any fun old => old.sameAs d then return ()
  if !(← define id key d) then
    refuse ("cannot define property " ++ (← displayKey key) ++ " on `" ++ reference ++ "`")

/-- Gives an object its prototype. Where it was left out, the present one stays. -/
def linkPrototype (session : SessionId) (reference : String) (id : ObjectId) (t : Tagged) :
    Run Unit := do
  match ← resolve session t with
  | .object p => link (some p)
  | .null => link none
  | .undefined => return ()
  | other =>
    refuse ("`" ++ reference ++ "` has a primitive prototype " ++ (← display other))
where
  link (prototype : Option ObjectId) : Run Unit := do
    if !(← changeStore fun s => s.setPrototype id prototype) then
      refuse ("cannot set the prototype of `" ++ reference ++ "`")

/-- Gives an object everything that its entry says. -/
def linkEntry (session : SessionId) (reference : String) (e : Entry) : Run Unit := do
  match ← resolveEntry session reference with
  | .object id =>
    if e.objectType ≠ plainType then
      match ← typeNamed e.objectType with
      | some t => linkPayload session id t e.payload
      | none => pure ()
    linkPrototype session reference id e.prototype
    for (k, s) in e.properties do
      linkProperty session reference id k s
    if !e.extensible then
      changeStore fun s => do
        return (← s.modify id fun o => { o with extensible := false }, ())
  | _ => return ()

/-- Everything that an entry refers to. -/
def dependencies (e : Entry) : Run (List Tagged) := do
  if e.objectType = plainType then return e.values
  match ← typeNamed e.objectType with
  | some t => return e.values ++ t.dependencies e.payload
  | none => return e.values

/-- Makes bare objects for everything that can be reached from those that have been made. -/
def discover (session : SessionId) (entries : Table String Entry) : Run Unit :=
  repeatFrom 0 fun cursor => do
    match (← sessionAt session).made.keys[cursor]? with
    | none => return .inr ()
    | some reference =>
      match entries.find? reference with
      | some e =>
        for t in ← dependencies e do
          let _ ← resolve session t
      | none => pure ()
      return .inl (cursor + 1)

/-- The three sweeps of a session. -/
def runSession (session : SessionId) (e : Envelope) : Run Value := do
  let root ← resolve session e.root
  discover session e.entries
  for reference in (← sessionAt session).made.keys do
    match e.entries.find? reference with
    | some entry => linkEntry session reference entry
    | none => pure ()
  return root

/-- Opens a session, runs an action in it and closes it, whatever comes of the action. The answer
also tells how many objects were made. -/
def withSession {α : Type} (entries : Table String Entry) (action : SessionId → Run α) :
    Run (Except EngineError α × Nat) := do
  let session := (← get).sessions.size
  modify fun r => { r with sessions := r.sessions.push { entries } }
  let outcome ← attempt (action session)
  let created := match (← get).sessions[session]? with
    | some s => s.made.size
    | none => 0
  modify fun r => { r with
    sessions := r.sessions.take session
    -- tables of this session have nobody left to ask
    scopes := r.scopes.map fun t =>
      if t.session == some session then { t with session := none } else t }
  return (outcome, created)

/-- The value of an envelope. -/
def deserialize (e : Envelope) : Run Value := do
  let (outcome, created) ← withSession e.entries fun session => runSession session e
  let detail := "entries=" ++ toString e.entries.size ++ " created=" ++ toString created
  noted "deserializer" "deserialize" (fun _ => return detail) (ofExcept outcome)

end Stasis
