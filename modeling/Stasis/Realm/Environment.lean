import Stasis.Heap.Object
import Stasis.Registry

/-!
# Environments

Variables live in environments, each inside another. The outermost one has the properties of an
object for its variables.

* `Environment`: variables, what `this` is, and where `super` looks.
* `Environments.chain`: an environment and those around it, from the inside out.
* `Environments.thisHolder`, `Environments.scopeOf?`: the nearest one with a `this`, and the nearest
  scope table.
-/

namespace Stasis

/-- A variable. It cannot be used before it is initialized. -/
structure Cell where
  value : Value := .undefined
  initialized : Bool := true
  mutable : Bool := true

/-- A variable that is declared and not yet initialized. -/
def Cell.declared (mutable : Bool) : Cell := { initialized := false, mutable }

/-- What `this` is in an environment. -/
inductive ThisState where
  /-- As in the environment around it. -/
  | inherited
  /-- Nothing, before the constructor of the superclass has returned. -/
  | unset
  | bound (value : Value)

/-- The environment says what `this` is. -/
def ThisState.isOwn : ThisState → Bool
  | inherited => false
  | unset | bound _ => true

/-- An environment. -/
structure Environment where
  parent : Option EnvId
  cells : Table String Cell := {}
  /-- The object whose properties are the variables. -/
  object : Option ObjectId := none
  this : ThisState := .inherited
  /-- The function that runs here. -/
  function : Option ObjectId := none
  /-- The object behind which `super` looks. -/
  home : Option ObjectId := none
  newTarget : Option ObjectId := none
  scope : Option TableId := none

/-- All environments, by number. -/
structure Environments where
  records : Array Environment := #[]

namespace Environments

variable (es : Environments)

/-- An environment. -/
def get? (id : EnvId) : Option Environment := es.records[id]?

/-- Adds an environment; the answer has its number. -/
def add (e : Environment) : EnvId × Environments :=
  (es.records.size, ⟨es.records.push e⟩)

/-- Changes an environment. -/
def modify (id : EnvId) (f : Environment → Environment) : Environments :=
  ⟨es.records.modify id f⟩

/-- An environment and those around it, from the inside out. What is around an environment was
there before it. -/
def chain (id : EnvId) : List EnvId :=
  id :: match (es.get? id).bind (·.parent) with
    | some parent => if parent < id then chain parent else []
    | none => []
termination_by id

/-- The nearest environment that says what `this` is, or the outermost one. -/
def thisHolder (id : EnvId) : EnvId :=
  let ids := es.chain id
  match ids.find? fun i => (es.get? i).any fun e => e.this.isOwn with
  | some i => i
  | none => ids.getLastD id

/-- The nearest scope table. -/
def scopeOf? (id : EnvId) : Option TableId :=
  (es.chain id).findSome? fun i => (es.get? i).bind (·.scope)

end Environments

end Stasis
