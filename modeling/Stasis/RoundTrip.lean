import Stasis.Resume

/-!
# Round trips

A value can be suspended if what comes of resuming it cannot be told from it.

* `Realm.compareValues`: two values are alike in everything that a script can observe. Objects that
  have been compared once, or are being compared, count as alike.
* `ensureSerializable`: suspends a value, resumes it and compares the two.
-/

namespace Stasis

/-- Pairs of objects that have been met. -/
abbrev MetPairs := List (ObjectId × ObjectId)

/-- An action of a comparison. -/
abbrev Check (α : Type) := StateT MetPairs (Except Fault) α

/-- Tells where two values differ, and how. -/
def differ {α : Type} (path what : String) : Check α :=
  throw (.error (.mismatch (path ++ ": " ++ what)))

/-- Two parts are alike. -/
def checkThat (same : Bool) (path what : String) : Check Unit :=
  if same then return () else differ path what

/-- Notes a pair of objects, and tells whether it is new. -/
def meet (a b : ObjectId) : Check Bool := do
  if (← get).contains (a, b) then return false
  modify fun met => (a, b) :: met
  return true

/-- The content of two buffers is alike. -/
def Buffer.sameAs (a b : Buffer) : Bool :=
  a.bytes.data == b.bytes.data && a.maxLength == b.maxLength && a.detached == b.detached

namespace Realm

variable (r : Realm)

/-- An object, in a comparison. -/
def checkedObject (id : ObjectId) : Check Object :=
  match r.store.get id with
  | .ok o => return o
  | .error cause => throw (.error (.heap cause))

/-- A value in the message of a comparison. -/
def checkedText (v : Value) : Check String :=
  match r.show? v with
  | some s => return s
  | none => throw .outOfFuel

/-- Compares two values; `objects` compares objects. -/
def compareWith (objects : String → ObjectId → ObjectId → Check Unit) (path : String) :
    Value → Value → Check Unit
  | .object a, .object b => objects path a b
  | a, b => do
    if a.sameValueZero b then return ()
    differ path ((← r.checkedText a) ++ " became " ++ (← r.checkedText b))

/-- Compares what two objects of one kind hold besides their properties. -/
def compareKinds (values : String → Value → Value → Check Unit) (path : String) :
    Kind → Kind → Check Unit
  | .map a, .map b => do
    checkThat (a.size == b.size) path
      ("map size " ++ toString a.size ++ " became " ++ toString b.size)
    for (((k, v), (k', v')), index) in (a.entries.zip b.entries).zipIdx do
      let inside := path ++ ".[[MapEntry " ++ toString index ++ "]]"
      values inside k.toValue k'.toValue
      values inside v v'
  | .set a, .set b => do
    checkThat (a.size == b.size) path
      ("set size " ++ toString a.size ++ " became " ++ toString b.size)
    for ((k, k'), index) in (a.keys.zip b.keys).zipIdx do
      values (path ++ ".[[SetElement " ++ toString index ++ "]]") k.toValue k'.toValue
  | .date a, .date b =>
    checkThat ((Value.number a).sameValueZero (.number b)) path
      ("time value " ++ Number.messageText a ++ " became " ++ Number.messageText b)
  | .regexp source flags, .regexp source' flags' =>
    checkThat (source == source' && flags == flags') path
      ("/" ++ source ++ "/" ++ flags ++ " became /" ++ source' ++ "/" ++ flags')
  | .wrapper a, .wrapper b => values (path ++ ".[[PrimitiveValue]]") a b
  | .buffer a, .buffer b => checkThat (a.sameAs b) path "buffer contents changed"
  | .bytes a offset length, .bytes b offset' length' => do
    checkThat (offset == offset' && length == length') path "view window changed"
    values (path ++ ".buffer") (.object a) (.object b)
  | .promise .pending, .promise (.rejected _) => return ()
  | .promise (.fulfilled a), .promise (.fulfilled b)
  | .promise (.rejected a), .promise (.rejected b) =>
    values (path ++ ".[[PromiseResult]]") a b
  | .promise _, .promise _ => differ path "promise settlement changed"
  | _, _ => return ()

/-- Compares two properties. -/
def compareDescriptors (values : String → Value → Value → Check Unit) (path : String) :
    Descriptor → Descriptor → Check Unit
  | .data a w e c, .data b w' e' c' => do
    checkThat (w == w' && e == e' && c == c') path "descriptor flags changed"
    values path a b
  | .accessor g s e c, .accessor g' s' e' c' => do
    checkThat (e == e' && c == c') path "descriptor flags changed"
    let half (id : Option ObjectId) : Value := (id.map Value.object).getD .undefined
    values (path ++ ".get") (half g) (half g')
    values (path ++ ".set") (half s) (half s')
  | _, _ => differ path "data and accessor properties swapped"

/-- Compares two objects: their kinds, flags, prototypes, slots, keys and properties. Each step goes
one object deeper. -/
def compareObjects : Nat → String → ObjectId → ObjectId → Check Unit
  | 0, _, _, _ => throw .outOfFuel
  | steps + 1, path, a, b => do
    if a == b then return ()
    if !(← meet a b) then return ()
    let values := r.compareWith (compareObjects steps)
    let o ← r.checkedObject a
    let o' ← r.checkedObject b
    checkThat (o.kind.label == o'.kind.label) path
      (o.kind.label ++ " became " ++ o'.kind.label)
    checkThat (o.extensible == o'.extensible) path "extensibility changed"
    let behind (p : Option ObjectId) : Value := (p.map Value.object).getD .undefined
    values (path ++ ".[[Prototype]]") (behind o.prototype) (behind o'.prototype)
    compareKinds values path o.kind o'.kind
    let keys := o.ownKeys
    let keys' := o'.ownKeys
    let shown (ks : List Key) : String := String.intercalate ", " (ks.map r.keyText)
    checkThat (decide (keys = keys')) path
      ("own keys [" ++ shown keys ++ "] became [" ++ shown keys' ++ "]")
    for ((k, d), (_, d')) in o.ownEntries.zip o'.ownEntries do
      compareDescriptors values (path ++ "." ++ r.keyText k) d d'

/-- A comparison goes no deeper than there are pairs of objects. -/
def compareLimit : Nat := r.store.size * r.store.size + 2

/-- Compares two values. -/
def compareValues (path : String) (a b : Value) : Check Unit :=
  r.compareWith (r.compareObjects r.compareLimit) path a b

end Realm

variable [Machine]

/-- Suspends a value, resumes it and compares the two. -/
def checkRoundTrip (v : Value) : Run Unit := do
  let copy ← deserialize (← serialize v {})
  match ((← realm).compareValues "value" v copy).run [] with
  | .ok _ => return ()
  | .error fault => throw fault

/-- The value itself, if it survives a round trip. -/
def ensureSerializable (v : Value) : Run Value :=
  noted "verify" "ensure_serializable" (fun _ => return "typeof=" ++ (← realm).typeOf v) do
    checkRoundTrip v
    return v

end Stasis
