import Stasis.Builtin.Invocation

/-!
# Functions of maps and sets

Keys are values up to `Value.sameValueZero`, and entries keep the order in which they were added.

* `applyMap`, `applySet`: the functions of `Map` and of `Set`. A walk sees the entries that were
  there when it began.
-/

namespace Stasis

/-- Refuses a receiver that is no collection. -/
def throwNotCollection {α : Type} (name : String) (v : Value) : Run α := do
  throwType ("Method " ++ name ++ ".prototype method called on incompatible receiver "
    ++ (← display v))

/-- The map that a function is called on, and its entries. -/
def mapReceiver (v : Value) : Run (ObjectId × Table CollectionKey Value) := do
  match v with
  | .object id =>
    match ← kindOf id with
    | .map entries => return (id, entries)
    | _ => throwNotCollection "Map" v
  | _ => throwNotCollection "Map" v

/-- The set that a function is called on, and its elements. -/
def setReceiver (v : Value) : Run (ObjectId × Table CollectionKey Unit) := do
  match v with
  | .object id =>
    match ← kindOf id with
    | .set elements => return (id, elements)
    | _ => throwNotCollection "Set" v
  | _ => throwNotCollection "Set" v

/-- Gives a key of a map a value. -/
def insertEntry (id : ObjectId) (key value : Value) : Run Unit := do
  match ← kindOf id with
  | .map entries => setKind id (.map (entries.insert (CollectionKey.ofValue key) value))
  | _ => return ()

/-- Adds an element to a set. -/
def insertElement (id : ObjectId) (element : Value) : Run Unit := do
  match ← kindOf id with
  | .set elements => setKind id (.set (elements.insert (CollectionKey.ofValue element) ()))
  | _ => return ()

variable [Machine]

/-- A new collection with everything that an iteration gives. -/
def constructCollection (c : Invocation) (name : String) (fallback : ObjectId) (kind : Kind)
    (add : ObjectId → Value → Run Unit) : Run Value := do
  if c.newTarget.isNone then throwType ("Constructor " ++ name ++ " requires 'new'")
  let id ← allocate (some (← prototypeFrom c.newTarget fallback)) kind
  if !(c.arg 0).isNullish then
    (← iterated (c.arg 0)).forM (add id)
  return .object id

/-- Adds a pair to a map. -/
def addPair (id : ObjectId) (pair : Value) : Run Unit := do
  if !pair.isObject then
    throwType ("Iterator value " ++ (← display pair) ++ " is not an entry object")
  let key ← getNamed pair "0"
  insertEntry id key (← getNamed pair "1")

/-- Calls a function of `Map`. -/
def applyMap (op : MapNative) (c : Invocation) : Run Value := do
  match op with
  | .construct => constructCollection c "Map" (← get).known.map (.map {}) addPair
  | _ =>
    let (id, entries) ← mapReceiver c.this
    let key := CollectionKey.ofValue (c.arg 0)
    match op with
    | .construct => return .undefined
    | .get => return (entries.find? key).getD .undefined
    | .set =>
      setKind id (.map (entries.insert key (c.arg 1)))
      return c.this
    | .has => return .bool (entries.contains key)
    | .delete =>
      setKind id (.map (entries.erase key))
      return .bool (entries.contains key)
    | .forEach =>
      for (k, v) in entries.entries do
        let _ ← call (c.arg 0) (c.arg 1) [v, k.toValue, c.this]
      return .undefined
    | .size => return .number (Float.ofNat entries.size)

/-- Calls a function of `Set`. -/
def applySet (op : SetNative) (c : Invocation) : Run Value := do
  match op with
  | .construct => constructCollection c "Set" (← get).known.set (.set {}) insertElement
  | _ =>
    let (id, elements) ← setReceiver c.this
    let key := CollectionKey.ofValue (c.arg 0)
    match op with
    | .construct => return .undefined
    | .add =>
      setKind id (.set (elements.insert key ()))
      return c.this
    | .has => return .bool (elements.contains key)
    | .delete =>
      setKind id (.set (elements.erase key))
      return .bool (elements.contains key)
    | .forEach =>
      for k in elements.keys do
        let _ ← call (c.arg 0) (c.arg 1) [k.toValue, k.toValue, c.this]
      return .undefined
    | .values => return .object (← newArray (elements.keys.map CollectionKey.toValue))
    | .size => return .number (Float.ofNat elements.size)

end Stasis
