import Stasis.Evaluate.Function

/-!
# Classes

* `evalClass`: the class and its prototype, with all members and static fields.
* `constructClass`: an object of a class. In a derived class the superclass makes it.
* `superCall`: the call that lets it do so.
-/

namespace Stasis

open Script (Binding ClassDef Expr PropertyName)

/-- Gives a property one half of an accessor and keeps the other half. -/
def mergeAccessor (id : ObjectId) (key : Key) (get set : Option ObjectId) (enumerable : Bool) :
    Run Unit := do
  let (oldGet, oldSet) := match (← objectAt id).own? key with
    | some (.accessor g s ..) => (g, s)
    | _ => (none, none)
  defineOrThrow id key (.accessor (get.or oldGet) (set.or oldSet) enumerable true)

/-- The prototype object of a class. -/
def classPrototype (class_ : ObjectId) : Run ObjectId := do
  match (← objectAt class_).own? (.text "prototype") with
  | some (.data (.object prototype) ..) => return prototype
  | _ => throwType "class has no prototype object"

variable [Machine]

/-- The key that a property name denotes. -/
def keyOfName (name : PropertyName) (env : EnvId) : Run Key := do
  match name with
  | .ident s | .text s => return .text s
  | .number x => return .text (Number.scriptText x)
  | .computed e => toKey (← eval e env)

/-- Evaluates a field and gives it to its object. -/
def defineField (node : ClassDef) (classEnv : EnvId) (field : FieldInit) (receiver home : ObjectId) :
    Run Unit := do
  match (node.members[field.member]?).map Script.ClassMember.kind with
  | some (.field value _) =>
    let env ← newEnvironment {
      parent := some classEnv, this := .bound (.object receiver), home := some home }
    let v ← match value with
      | some e => evalNamed e (← functionNameFor field.key) env
      | none => pure .undefined
    addProperty receiver field.key v
  | _ => return ()

/-- Gives a new object the fields of a class. -/
def initializeFields (class_ instance_ : ObjectId) : Run Unit := do
  match ← kindOf class_ with
  | .function (.class node env fields _) =>
    let home ← classPrototype class_
    fields.forM fun field => defineField node env field instance_ home
  | _ => return ()

/-- What stands behind the prototype of a class, and behind the class. -/
def classParents (superClass : Option Expr) (env : EnvId) : Run (Option ObjectId × ObjectId) := do
  let known := (← get).known
  match superClass with
  | none => return (some known.object, known.function)
  | some e =>
    let parent ← eval e env
    match parent with
    | .null => return (none, known.function)
    | .object id =>
      if (← get).isConstructor parent then
        match ← getNamed parent "prototype" with
        | .object prototype => return (some prototype, id)
        | .null => return (none, id)
        | _ => throwType "Class extends value does not have valid prototype property"
      else refuse parent
    | other => refuse other
where
  refuse (v : Value) : Run (Option ObjectId × ObjectId) := do
    throwType ("Class extends value " ++ (← display v) ++ " is not a constructor or null")

/-- Defines the members of a class that are not fields; the fields are the answer, those of
objects first. -/
def defineMembers (env : EnvId) (class_ prototype : ObjectId) :
    List (Script.ClassMember × Nat) → Run (List FieldInit × List FieldInit)
  | [] => return ([], [])
  | (m, index) :: rest => do
    let key ← keyOfName m.key env
    let target := if m.static then class_ else prototype
    let name ← functionNameFor key
    match m.kind with
    | .method d =>
      let f ← newFunction d env (some target) (some name)
      defineOrThrow target key (.hidden (.object f))
    | .getter d =>
      let f ← newFunction d env (some target) (some name)
      mergeAccessor target key (some f) none false
    | .setter d =>
      let f ← newFunction d env (some target) (some name)
      mergeAccessor target key none (some f) false
    | .field .. => pure ()
    let (fields, statics) ← defineMembers env class_ prototype rest
    match m.kind, m.static with
    | .field .., false => return (⟨key, index⟩ :: fields, statics)
    | .field .., true => return (fields, ⟨key, index⟩ :: statics)
    | _, _ => return (fields, statics)

/-- The value of a class expression or declaration. -/
def evalClass (node : ClassDef) (outer : EnvId) (inferred : Option String) : Run Value := do
  let env ← newBlock outer
  match node.name with
  | some binding => declare env binding.name (.declared false)
  | none => pure ()
  let (behindPrototype, behindClass) ← classParents node.superClass env
  let prototype ← allocate behindPrototype .ordinary
  let derived := node.superClass.isSome
  let class_ ← allocate (some behindClass) (.function (.class node env [] derived))
  let name := ((node.name.map Binding.name).orElse fun _ => inferred).getD ""
  let length := (node.constructor.map (·.length)).getD 0
  let _ ← define class_ .length (.readonly (.number (Float.ofNat length)))
  let _ ← define class_ (.text "name") (.readonly (.text name))
  let _ ← define class_ (.text "prototype") (.constant (.object prototype))
  let _ ← define prototype (.text "constructor") (.hidden (.object class_))
  let (fields, statics) ← defineMembers env class_ prototype node.members.zipIdx
  -- the keys of the fields are known only now
  setKind class_ (.function (.class node env fields derived))
  match node.name with
  | some binding => initializeVariable env binding.name (.object class_)
  | none => pure ()
  statics.forM fun field => defineField node env field class_ class_
  return .object class_

/-- Lets the superclass make the object that `this` is from then on. -/
def superCall (env : EnvId) (args : List Value) : Run Value := do
  let holder := (← get).environments.thisHolder env
  let e ← environmentAt holder
  match e.function, e.newTarget with
  | some class_, some newTarget =>
    let parent : Value := match (← objectAt class_).prototype with
      | some id => .object id
      | none => .null
    if !(← get).isConstructor parent then
      throwType "Super constructor is not a constructor"
    -- the superclass runs even if this is already bound
    let result ← construct parent args newTarget
    match (← environmentAt holder).this with
    | .unset =>
      changeEnvironment holder fun e => { e with this := .bound result }
      match result with
      | .object id => initializeFields class_ id
      | _ => pure ()
      return result
    | _ => throwReference "Super constructor may only be called once"
  | _, _ => throwSyntax "'super' keyword unexpected here"

/-- Makes an object of a class. -/
def constructClass (class_ : ObjectId) (node : ClassDef) (classEnv : EnvId) (derived : Bool)
    (args : List Value) (newTarget : ObjectId) : Run Value := do
  let home ← classPrototype class_
  let env ← newEnvironment {
    parent := some classEnv
    this := .unset
    function := some class_
    home := some home
    newTarget := some newTarget }
  -- in a derived class there is no object until the superclass has made it
  if !derived then
    let prototype ← prototypeFrom (some newTarget) (← get).known.object
    let id ← allocate (some prototype) .ordinary
    changeEnvironment env fun e => { e with this := .bound (.object id) }
    initializeFields class_ id
  let returned ← match node.constructor with
    | some constructor => do
      bindArguments constructor env args
      runBody constructor.body env
    | none => do
      if derived then
        let _ ← superCall env args
      pure .undefined
  if returned.isObject then return returned
  thisValue env

end Stasis
