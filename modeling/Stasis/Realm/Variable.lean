import Stasis.Realm.Change

/-!
# Variables

* `declare`, `declareVar`, `initializeVariable`: making variables.
* `Realm.holder?`: the environment that holds a name, from the inside out.
* `readVariable`, `writeVariable`: using variables; one that is not initialized cannot be used.
* `thisValue`, `homeObject`: what `this` and `super` mean.
* `readScope`, `writeScope`: captured names of functions that have been resumed.
-/

namespace Stasis

/-- Adds an environment inside another one. -/
def newEnvironment (e : Environment) : Run EnvId :=
  modifyGet fun r =>
    let (id, environments) := r.environments.add e
    (id, { r with environments })

/-- Adds an environment for a block. -/
def newBlock (parent : EnvId) : Run EnvId := newEnvironment { parent := some parent }

/-- An environment. -/
def environmentAt (id : EnvId) : Run Environment := do
  match (← get).environments.get? id with
  | some e => return e
  | none =>
    raise (.heap (.typeError ("environment #" ++ toString id ++ " does not exist")))

/-- Changes an environment. -/
def changeEnvironment (id : EnvId) (f : Environment → Environment) : Run Unit :=
  modify fun r => { r with environments := r.environments.modify id f }

/-- Gives an environment a variable. -/
def setCell (id : EnvId) (name : String) (cell : Cell) : Run Unit :=
  changeEnvironment id fun e => { e with cells := e.cells.insert name cell }

/-- Declares a name; no name is declared twice in one environment. -/
def declare (id : EnvId) (name : String) (cell : Cell) : Run Unit := do
  if (← environmentAt id).cells.contains name then
    throwSyntax ("Identifier '" ++ name ++ "' has already been declared")
  setCell id name cell

/-- Declares a name with `var`, or keeps what it is. -/
def declareVar (id : EnvId) (name : String) : Run Unit := do
  let e ← environmentAt id
  match e.object with
  | some object =>
    if ((← objectAt object).own? (.text name)).isNone then
      let _ ← define object (.text name) (.data .undefined true true false)
  | none => if !e.cells.contains name then setCell id name {}

/-- Gives a declared name its first value. -/
def initializeVariable (id : EnvId) (name : String) (v : Value) : Run Unit := do
  match (← environmentAt id).cells.find? name with
  | some cell => setCell id name { cell with value := v, initialized := true }
  | none => throwReference (name ++ " is not defined")

/-- An environment holds a name. -/
def Realm.holdsName (r : Realm) (id : EnvId) (name : String) : Except HeapError Bool := do
  match r.environments.get? id with
  | none => return false
  | some e =>
    match e.object with
    | some object => return (← r.store.lookup object (.text name)).isSome
    | none => return e.cells.contains name

/-- The first environment of a list that holds a name. -/
def Realm.holderIn? (r : Realm) (name : String) : List EnvId → Except HeapError (Option EnvId)
  | [] => return none
  | id :: rest => do if ← r.holdsName id name then return some id else r.holderIn? name rest

/-- The environment that holds a name, from an environment outwards. -/
def Realm.holder? (r : Realm) (id : EnvId) (name : String) : Except HeapError (Option EnvId) :=
  r.holderIn? name (r.environments.chain id)

/-- The environment that holds a name, or an error. -/
def holderOf (id : EnvId) (name : String) : Run EnvId := do
  match ← ofRealm fun r => r.holder? id name with
  | some holder => return holder
  | none => throwReference (name ++ " is not defined")

/-- Refuses a variable that is not initialized. -/
def throwUninitialized {α : Type} (name : String) : Run α :=
  throwReference ("Cannot access '" ++ name ++ "' before initialization")

/-- What `this` is. -/
def thisValue (id : EnvId) : Run Value := do
  match (← environmentAt ((← get).environments.thisHolder id)).this with
  | .bound v => return v
  | .inherited => return .undefined
  | .unset =>
    throwReference ("Must call super constructor in derived class before accessing 'this' "
      ++ "or returning from derived constructor")

/-- The object behind which `super` looks. -/
def homeObject (id : EnvId) : Run ObjectId := do
  match (← environmentAt ((← get).environments.thisHolder id)).home with
  | some home => return home
  | none => throwSyntax "'super' keyword unexpected here"

/-- Adds a scope table. -/
def newScope (t : ScopeTable) : Run TableId :=
  modifyGet fun r => (r.scopes.size, { r with scopes := r.scopes.push t })

/-- Changes a scope table. -/
def changeScope (id : TableId) (f : ScopeTable → ScopeTable) : Run Unit :=
  modify fun r => { r with scopes := r.scopes.modify id f }

/-- Gives a captured name its value. -/
def setCaptured (id : TableId) (name : String) (v : Value) : Run Unit :=
  changeScope id fun t => { t with entries := t.entries.insert name (.resolved v) }

/-- The table in which an environment looks for captured names. -/
def scopeAt (id : EnvId) : Run TableId := do
  match (← get).environments.scopeOf? id with
  | some table => return table
  | none => throwReference "__$getFromScope is not defined"

/-- Assigns to a captured name. -/
def writeScope (id : TableId) (name : String) (v : Value) : Run Unit := do
  if (← get).scopes[id]?.any fun t => t.entries.contains name then setCaptured id name v
  else throwReference (name ++ " is not defined")

variable [Machine]

/-- The value of a variable. -/
def readVariable (id : EnvId) (name : String) : Run Value := do
  let e ← environmentAt (← holderOf id name)
  match e.object, e.cells.find? name with
  | some object, _ => getOf object name
  | none, some ⟨v, true, _⟩ => return v
  | none, _ => throwUninitialized name

/-- Assigns to a variable. -/
def writeVariable (id : EnvId) (name : String) (v : Value) : Run Unit := do
  let holder ← holderOf id name
  let e ← environmentAt holder
  match e.object, e.cells.find? name with
  | some object, _ => setProperty (.object object) (.text name) v
  | none, some ⟨_, true, true⟩ => setCell holder name { value := v }
  | none, some ⟨_, true, false⟩ => throwType "Assignment to constant variable."
  | none, _ => throwUninitialized name

/-- The value of a captured name. A pending one is made by the session of the table. -/
def readScope (id : TableId) (name : String) : Run Value := do
  let table := (← get).scopes[id]?
  match table.bind fun t => t.entries.find? name with
  | some (.resolved v) => return v
  | some (.pending tagged) =>
    match table.bind (·.session) with
    | none =>
      raise (.invalidEnvelope ("captured binding `" ++ name
        ++ "` outlived its reconstruction session"))
    | some session =>
      let v ← resolve session tagged
      -- from now on the name has this value, also without a session
      setCaptured id name v
      return v
  | none => throwReference (name ++ " is not defined")

end Stasis
