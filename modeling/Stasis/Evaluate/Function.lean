import Stasis.Realm.Variable
import Stasis.Script.Scope

/-!
# Functions

* `newFunction`, `functionValue`: the objects that function expressions make.
* `evalNamed`: functions and classes without a name take that of what they are assigned to.
* `declareLexical`: the names that a list of statements declares.
* `callScript`: running a function of a script.
-/

namespace Stasis

open Script (Binding Expr FunctionBody FunctionDef FunctionKind Param Statement)

/-- The name of a function under its key. -/
def functionNameFor (k : Key) : Run String := do
  match k with
  | .text s => return s
  | .symbol id => return "[" ++ ((← get).symbols.description? id).getD "" ++ "]"

/-- Accessors have the word for their half in their name. -/
def accessorName (kind : FunctionKind) (base : String) : String :=
  match kind with
  | .getter => "get " ++ base
  | .setter => "set " ++ base
  | _ => base

/-- A new function in the environment where it stands. -/
def newFunction (node : FunctionDef) (env : EnvId) (home : Option ObjectId)
    (name : Option String) : Run ObjectId := do
  let id ← allocate (some (← get).known.function) (.function (.script node env home))
  let base := (name.orElse fun _ => node.name.map Binding.name).getD ""
  let _ ← define id .length (.readonly (.number (Float.ofNat node.length)))
  let _ ← define id (.text "name") (.readonly (.text (accessorName node.kind base)))
  if node.kind.isConstructable then
    let prototype ← newObject
    let _ ← define prototype (.text "constructor") (.hidden (.object id))
    let _ ← define id (.text "prototype") (.data (.object prototype) true false false)
  return id

/-- The value of a function expression. One with a name has it for a variable of its own. -/
def functionValue (node : FunctionDef) (env : EnvId) (inferred : Option String) : Run Value := do
  match node.name with
  | none => return .object (← newFunction node env none inferred)
  | some binding =>
    let own ← newBlock env
    declare own binding.name (.declared false)
    let f : Value := .object (← newFunction node own none none)
    initializeVariable own binding.name f
    return f

variable [Machine]

/-- Declares the names of a list of statements and makes its functions. Functions go to `target`
where there is one, and stay in the environment where there is none. -/
def declareLexical (env : EnvId) (target : Option EnvId) : List Statement → Run Unit
  | [] => return ()
  | s :: rest => do
    match s with
    | .declaration d =>
      if d.kind != .var then
        for x in d.declarators do
          declare env x.binding.name (.declared (d.kind != .const))
    | .class d =>
      match d.name with
      | some binding => declare env binding.name (.declared true)
      | none => pure ()
    | .function d =>
      match d.name with
      | none => pure ()
      | some binding =>
        let f : Value := .object (← newFunction d env none none)
        match target with
        | some target =>
          declareVar target binding.name
          writeVariable target binding.name f
        | none => declare env binding.name { value := f }
    | _ => pure ()
    declareLexical env target rest

/-- Runs statements until one does not end normally. -/
def execAll (env : EnvId) : List Statement → Run Completion
  | [] => return .normal
  | s :: rest => do
    match ← exec s env with
    | .normal => execAll env rest
    | completion => return completion

/-- Declares `var` names. -/
def declareVars (env : EnvId) (names : List String) : Run Unit := names.forM (declareVar env)

/-- Runs the body of a function. -/
def runBody (body : FunctionBody) (env : EnvId) : Run Value := do
  match body with
  | .expr e => eval e env
  | .block b =>
    declareVars env (Script.varNamesOfList b.body)
    declareLexical env (some env) b.body
    match ← execAll env b.body with
    | .ret v => return v
    | _ => return .undefined

/-- Gives parameters their values, or their defaults. What is left over is the answer. -/
def bindParams (env : EnvId) : List Param → List Value → Run (List Value)
  | [], args => return args
  | p :: params, args => do
    let given := args.headD .undefined
    let v ← match given, p.default with
      | .undefined, some e => evalNamed e p.binding.name env
      | _, _ => pure given
    initializeVariable env p.binding.name v
    bindParams env params args.tail

/-- Binds the parameters of a function to arguments. All names are declared before any default is
evaluated. -/
def bindArguments (node : FunctionDef) (env : EnvId) (args : List Value) : Run Unit := do
  for p in node.params do
    declare env p.binding.name (.declared true)
  match node.rest with
  | some rest => declare env rest.name (.declared true)
  | none => pure ()
  let more ← bindParams env node.params args
  match node.rest with
  | some rest => initializeVariable env rest.name (.object (← newArray more))
  | none => pure ()

/-- Runs a function of a script. -/
def callScript (function : ObjectId) (node : FunctionDef) (closure : EnvId)
    (home : Option ObjectId) (this : Value) (args : List Value) (newTarget : Option ObjectId) :
    Run Value := do
  let env ← newEnvironment {
    parent := some closure
    this := if node.kind.bindsThis then .bound this else .inherited
    function := some function
    home
    newTarget }
  bindArguments node env args
  runBody node.body env

end Stasis
