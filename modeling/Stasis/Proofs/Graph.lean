import Mathlib
import Stasis.Proofs.Run

/-!
# Graphs of data and their copies

What a value refers to is a graph: objects that refer to each other through prototypes, properties
and what their kinds hold. Objects of the host have paths and are leaves of it.

* `Realm.Holds`: the values in the graph of a value.
* `Realm.IsDataGraph`: the graph holds plain data and objects of the host, and nothing else.
* `Realm.IsInertGraph`: the same, but a window may reach beyond its buffer.
* `Realm.IsCopy`: one value is a copy of another, object by object, with sharing and cycles.
* `Realm.Sound`: what holds of every realm because of how its objects and references are made.
* `Realm.PathsLead`: every recorded path leads to its object.
* `Realm.KeepsNumbers`: the numbers of a graph survive being written and read.
* `Realm.ArraysEnd`: arrays have no element behind their end.
* `Realm.HasShortChains`: chains of prototypes are short enough to be followed.
-/

namespace Stasis

/-! ## What refers to what -/

/-- The values that a property refers to. -/
def Descriptor.values : Descriptor → List Value
  | .data v _ _ _ => [v]
  | .accessor g s _ _ => (g.toList ++ s.toList).map Value.object

/-- The values that an object refers to besides its properties. -/
def Kind.values : Kind → List Value
  | .map entries => entries.entries.flatMap fun (k, v) => [k.toValue, v]
  | .set elements => elements.keys.map CollectionKey.toValue
  | .wrapper v => [v]
  | .promise (.fulfilled v) | .promise (.rejected v) => [v]
  | .bytes viewed _ _ => [.object viewed]
  | _ => []

/-- The values that an object refers to. -/
def Object.values (o : Object) : List Value :=
  (o.prototype.map Value.object).toList
    ++ (o.properties.values.flatMap Descriptor.values ++ o.kind.values)

/-- The second value is in the graph of the first one. -/
inductive Realm.Holds (r : Realm) (v : Value) : Value → Prop
  | self : r.Holds v v
  | step {id : ObjectId} {o : Object} {w : Value} (held : r.Holds v (.object id))
      (inner : r.hostPaths.contains id = false) (found : r.store.get id = .ok o)
      (refers : w ∈ o.values) : r.Holds v w

/-- An object in the graph of a value that is no part of the host. -/
def Realm.Inner (r : Realm) (v : Value) (id : ObjectId) : Prop :=
  r.Holds v (.object id) ∧ r.hostPaths.contains id = false

/-! ## Data -/

/-- The kind is one of plain data: no function, no error, and no promise that is not settled. A
window on a buffer lies inside it. -/
def Kind.IsData (s : Store) : Kind → Prop
  | .function _ | .error | .promise .pending => False
  | .bytes viewed offset length =>
    ∃ o b, s.get viewed = .ok o ∧ o.kind = .buffer b ∧ offset + length ≤ b.bytes.size
  | _ => True

/-- The kind is one that can be written without a script having its say: no function, and no error. -/
def Kind.IsInert : Kind → Prop
  | .function _ | .error => False
  | _ => True

theorem Kind.IsData.isInert {s : Store} {k : Kind} (h : k.IsData s) : k.IsInert := by
  cases k with
  | function | error => exact h.elim
  | _ => trivial

/-- Everything in the graph of the value is data or belongs to the host. -/
structure Realm.IsDataGraph (r : Realm) (v : Value) : Prop where
  found : ∀ id, r.Holds v (.object id) → ∃ o, r.store.get id = .ok o
  data : ∀ id o, r.Inner v id → r.store.get id = .ok o → o.kind.IsData r.store
  /-- The prototypes of classes belong to their classes. -/
  classless : ∀ id, r.Inner v id → r.registry.classOf? id = none
  /-- Big integers have 128 bits. -/
  wide : ∀ n, r.Holds v (.bigint n) → Number.fitsWide n = true

/-- Everything in the graph of the value is inert or belongs to the host. -/
structure Realm.IsInertGraph (r : Realm) (v : Value) : Prop where
  found : ∀ id, r.Holds v (.object id) → ∃ o, r.store.get id = .ok o
  inert : ∀ id o, r.Inner v id → r.store.get id = .ok o → o.kind.IsInert
  classless : ∀ id, r.Inner v id → r.registry.classOf? id = none

theorem Realm.IsDataGraph.isInertGraph {r : Realm} {v : Value} (h : r.IsDataGraph v) :
    r.IsInertGraph v :=
  ⟨h.found, fun id o hid ho => (h.data id o hid ho).isInert, h.classless⟩

/-! ## Copies -/

/-- The value with other objects. -/
def Value.map (f : ObjectId → ObjectId) : Value → Value
  | .object id => .object (f id)
  | v => v

/-- The key with other objects. -/
def CollectionKey.map (f : ObjectId → ObjectId) : CollectionKey → CollectionKey
  | .object id => .object (f id)
  | k => k

/-- The property with other objects. -/
def Descriptor.map (f : ObjectId → ObjectId) : Descriptor → Descriptor
  | .data v w e c => .data (v.map f) w e c
  | .accessor g s e c => .accessor (g.map f) (s.map f) e c

/-- The second kind holds what the first one does, with other objects. Entries are in the same
order; times are equal but for the sign of zero. -/
def Kind.IsCopy (f : ObjectId → ObjectId) : Kind → Kind → Prop
  | .ordinary, .ordinary | .array, .array => True
  | .map a, .map b => b.entries = a.entries.map fun p => (p.1.map f, p.2.map f)
  | .set a, .set b => b.keys = a.keys.map (CollectionKey.map f)
  | .date x, .date y => (Value.number y).sameValueZero (.number x) = true
  | .regexp s t, .regexp s' t' => s' = s ∧ t' = t
  | .wrapper v, .wrapper w => w = v.map f
  | .buffer a, .buffer b => b = a
  | .bytes a i n, .bytes b j m => b = f a ∧ j = i ∧ m = n
  | .promise (.fulfilled v), .promise (.fulfilled w) => w = v.map f
  | .promise (.rejected v), .promise (.rejected w) => w = v.map f
  | _, _ => False

/-- The second object is the first one with other objects: the same own keys in the same order, each
with the same property. -/
structure Object.IsCopy (f : ObjectId → ObjectId) (o o' : Object) : Prop where
  prototype : o'.prototype = o.prototype.map f
  extensible : o'.extensible = o.extensible
  properties : o'.ownEntries = o.ownEntries.map fun p => (p.1, p.2.map f)
  kind : o.kind.IsCopy f o'.kind

/-- In `r'`, `w` is a copy of the value `v` of `r`: a bijection takes the objects in the graph of `v`
to those in the graph of `w`, and each object to a copy of it. Objects of the host stand for
themselves, the others are new, and what was there before is still there. -/
def Realm.IsCopy (r r' : Realm) (v w : Value) : Prop :=
  ∃ f : ObjectId → ObjectId,
    w = v.map f
    ∧ Set.BijOn f {id | r.Inner v id} {id | r'.Inner w id}
    ∧ (∀ id, r.hostPaths.contains id = true → f id = id)
    ∧ (∀ id, r.Inner v id → r.store.size ≤ f id)
    ∧ (∀ id o, r.Inner v id → r.store.get id = .ok o →
        ∃ o', r'.store.get (f id) = .ok o' ∧ o.IsCopy f o')
    ∧ ∀ id o, r.store.get id = .ok o → r'.store.get id = .ok o

/-! ## Sound realms -/

/-- The references of different objects are different, and the reference of a symbol leads back to
it. -/
structure References.Sound (r : References) : Prop where
  given : ∀ id reference, r.objects.find? id = some reference →
    ∃ n, n < r.next ∧ reference = referenceOf n
  objects : ∀ id id' reference, r.objects.find? id = some reference →
    r.objects.find? id' = some reference → id = id'
  symbols : ∀ id reference, r.symbols.find? id = some reference →
    r.byReference.find? reference = some id

/-- What an object holds is well formed: keys of collections are keys of values, a wrapper holds a
primitive value, and a buffer is within its limit. -/
def Kind.Sound : Kind → Prop
  | .map entries => ∀ k ∈ entries.keys, CollectionKey.ofValue k.toValue = k
  | .set elements => ∀ k ∈ elements.keys, CollectionKey.ofValue k.toValue = k
  | .wrapper v => v.isObject = false ∧ v.isNullish = false
  | .buffer b => ∀ max, b.maxLength = some max → b.bytes.size ≤ max
  | _ => True

/-- The halves of an accessor are functions. -/
def Descriptor.Sound (s : Store) : Descriptor → Prop
  | .data .. => True
  | .accessor g h _ _ => ∀ f ∈ g.toList ++ h.toList, s.isFunction f = true

/-- An array begins with its length. -/
def Object.BeginsWithLength (o : Object) : Prop :=
  ∃ v w rest, o.properties.entries = (Key.length, .data v w false false) :: rest

/-- What holds of every object because of how objects are made. -/
structure Object.Sound (s : Store) (o : Object) : Prop where
  kind : o.kind.Sound
  properties : ∀ d ∈ o.properties.values, d.Sound s
  array : o.kind = .array → o.BeginsWithLength

/-- What holds of every store because of how its objects are made. -/
def Store.Sound (s : Store) : Prop := ∀ id o, s.get id = .ok o → o.Sound s

/-- What holds of every realm because of how its objects and references are made, and no type of objects
has been added: new realms are sound, and stay so (`sound_of_drive`). -/
structure Realm.Sound (r : Realm) : Prop where
  references : r.references.Sound
  objects : r.store.Sound
  types : r.objectTypes = ObjectType.all

/-! ## What a copy rests on -/

/-- Everything that was in the first realm is in the second one, as it was. -/
structure Realm.Grows (r r' : Realm) : Prop where
  objects : ∀ id o, r.store.get id = .ok o → r'.store.get id = .ok o
  size : r.store.size ≤ r'.store.size
  environments : ∀ id e, r.environments.get? id = some e → r'.environments.get? id = some e
  descriptions : ∀ (id : SymbolId) (d : Option String), r.symbols.descriptions[id]? = some d →
    r'.symbols.descriptions[id]? = some d
  shared : ∀ key id, r.symbols.byKey.find? key = some id → r'.symbols.byKey.find? key = some id
  symbols : ∀ reference id, r.references.symbol? reference = some id →
    r'.references.symbol? reference = some id
  registry : ∀ id record, r.registry.get? id = some record → r'.registry.get? id = some record
  scopes : ∀ (id : TableId) (t : ScopeTable), r.scopes[id]? = some t → r'.scopes[id]? = some t
  known : r'.known = r.known
  globalEnv : r'.globalEnv = r.globalEnv
  scriptEnv : r'.scriptEnv = r.scriptEnv
  hostPaths : r'.hostPaths = r.hostPaths
  types : r'.objectTypes = r.objectTypes
  config : r'.config = r.config
  depth : r'.depth = r.depth

/-- Every recorded path leads to its object, now and after the realm has grown, and nothing changes
on the way there. -/
structure Realm.PathsLead (r : Realm) : Prop where
  found : ∀ id, r.hostPaths.contains id = true → ∃ o, r.store.get id = .ok o
  leads : ∀ id path, r.hostPaths.pathOf? id = some path →
    ∃ n, ∀ depth, n ≤ depth → ∀ r', r.Grows r' →
      ∃ r'', Yields (@resolvePath (engine depth) path) r' (.object id) r''
        ∧ r'.Grows r'' ∧ r''.sessions = r'.sessions

/-- The number that a tagged value stands for. -/
def Tagged.number? : Tagged → Option Float
  | .simple (.number n) => some n.toFloat
  | .nan => some (0 / 0)
  | .infinity => some (1 / 0)
  | .negativeInfinity => some (-1 / 0)
  | .negativeZero => some (-0.0)
  | _ => none

/-- The number that is read is the one that was written. -/
def IsKept (x : Float) : Prop := (taggedNumber x).number? = some x

/-- The time that is read is the one that was written, but for the sign of zero. What is written for
a time that is not finite is no number. -/
def IsKeptTime (x : Float) : Prop :=
  if x.isFinite then
    ∃ n, jsonOfNumber x = .number n ∧ (Value.number n.toFloat).sameValueZero (.number x) = true
  else x.isNaN = true

/-- The numbers in the graph of a value survive being written and read. -/
structure Realm.KeepsNumbers (r : Realm) (v : Value) : Prop where
  numbers : ∀ x, r.Holds v (.number x) → IsKept x
  times : ∀ id o x, r.Inner v id → r.store.get id = .ok o → o.kind = .date x → IsKeptTime x

/-- An array whose length is a number has no element from there on, except for elements that cannot
be removed. -/
def Object.EndsAtLength (o : Object) : Prop :=
  ∀ key d index x w e c, (key, d) ∈ o.properties.entries → key.arrayIndex? = some index →
    d.isConfigurable = true → o.own? .length = some (.data (.number x) w e c) →
    index < Object.toLength x

/-- A chain of prototypes ends within `n` objects. -/
def Store.ChainWithin (s : Store) : ℕ → Option ObjectId → Prop
  | _, none => True
  | 0, some _ => False
  | n + 1, some id => ∃ o, s.get id = .ok o ∧ s.ChainWithin n o.prototype

/-- The prototypes that new objects begin with, whatever prototype they get later. -/
def WellKnown.prototypes (k : WellKnown) : List ObjectId :=
  [k.object, k.array, k.map, k.set, k.symbol, k.date, k.regexp, k.promise, k.buffer, k.bytes,
    k.number, k.string, k.boolean, k.bigint]

/-- Arrays in the graph end where their length says. -/
def Realm.ArraysEnd (r : Realm) (v : Value) : Prop :=
  ∀ id o, r.Inner v id → r.store.get id = .ok o → o.kind = .array → o.EndsAtLength

/-- Chains of prototypes in the graph end within `a` objects, and those of built-in prototypes within
`b` objects. -/
structure Realm.ChainsWithin (r : Realm) (v : Value) (a b : ℕ) : Prop where
  graph : ∀ id o, r.Inner v id → r.store.get id = .ok o → r.store.ChainWithin a o.prototype
  known : ∀ p ∈ r.known.prototypes, r.store.ChainWithin b (some p)

/-- A chain of prototypes in the graph can be followed to its end, also with the chain of a built-in
prototype behind it. -/
def Realm.HasShortChains (r : Realm) (v : Value) : Prop :=
  ∃ a b, a + b ≤ maxChainDepth + 1 ∧ r.ChainsWithin v a b

end Stasis
