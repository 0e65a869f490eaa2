import Stasis.Builtin.Dispatch
import Stasis.Builtin.Globals
import Stasis.Evaluate.Expression
import Stasis.Evaluate.Statement
import Stasis.Script.Instrument

/-!
# The engine

* `callValue`, `constructValue`: calling any function, and making an object with any constructor.
* `perform`, `engine`: the machine that carries out every request, as deep as its bound allows.
* `Realm.start`: a new realm.
* `evalScript`, `evalInstrumented`: running a script, as it is or instrumented.
* `getGlobal`, `setGlobal`: global variables, for whoever drives the realm.
-/

namespace Stasis

/-- What a function does when it is called. -/
def behaviorOf? (v : Value) : Run (Option (ObjectId × Behavior)) := do
  match v with
  | .object id =>
    match ← kindOf id with
    | .function behavior => return some (id, behavior)
    | _ => return none
  | _ => return none

section Calls

variable [Machine]

/-- Calls a value. -/
def callValue (f this : Value) (args : List Value) : Run Value := do
  match ← behaviorOf? f with
  | none => throwNotFunction f
  | some (id, behavior) => nested do
    match behavior with
    | .script node env home => callScript id node env home this args none
    | .class .. =>
      throwType ("Class constructor " ++ (← functionName id) ++ " cannot be invoked without 'new'")
    | .native op slot => applyNative op { this, args, newTarget := none, slot }

/-- Makes an object with a function of a script. An object that the function returns takes its
place. -/
def constructScript (id : ObjectId) (node : Script.FunctionDef) (env : EnvId)
    (home : Option ObjectId) (args : List Value) (newTarget : ObjectId) : Run Value := do
  let prototype ← prototypeFrom (some newTarget) (← get).known.object
  let made : Value := .object (← allocate (some prototype) .ordinary)
  let returned ← callScript id node env home made args (some newTarget)
  return if returned.isObject then returned else made

/-- Makes an object with a constructor. -/
def constructValue (f : Value) (args : List Value) (newTarget : ObjectId) : Run Value := do
  let behavior ← behaviorOf? f
  match behavior, (← get).isConstructor f with
  | some (id, behavior), true => nested do
    match behavior with
    | .script node env home => constructScript id node env home args newTarget
    | .class node env _ derived => constructClass id node env derived args newTarget
    | .native op slot =>
      applyNative op { this := .undefined, args, newTarget := some newTarget, slot }
  | _, _ => throwType ((← display f) ++ " is not a constructor")

end Calls

/-- Carries out a request, at most `depth` requests inside each other. -/
def perform : Nat → {α : Type} → Request α → Run α
  | 0, _, _ => throw .outOfFuel
  | depth + 1, _, request =>
    -- what the request asks for in turn has one level less
    letI : Machine := ⟨depth, fun inner => perform depth inner⟩
    match request with
    | .eval e name env => evalExpr e name env
    | .exec s env => execStatement s env
    | .call function this args => callValue function this args
    | .construct function args newTarget => constructValue function args newTarget
    | .suspend pass v path => suspendValue pass v path
    | .resolve session t => resolveTagged session t
    | .toJson v seen => interchangeForm v seen

/-- The machine with a bound on the depth of its work, and on the rounds of its loops. -/
@[reducible] def engine (depth : Nat) : Machine := ⟨depth, fun request => perform depth request⟩

/-- The environments that a realm begins with. -/
def firstEnvironments (global : ObjectId) : Environments where
  records := #[
    { parent := none, object := some global, this := .bound (.object global) },
    { parent := some 0 }]

/-- A realm in which nothing has been done. -/
def Realm.fresh (config : Config) : Realm :=
  let (iterator, symbols) := Symbols.create {} (some "Symbol.iterator")
  let (known, store) := (buildGlobals iterator).run {}
  { store, symbols, environments := firstEnvironments known.global, known
    globalEnv := 0, scriptEnv := 1, config, events := { traceId := config.traceId } }

/-- Runs an action in a realm. -/
def Realm.run {α : Type} (r : Realm) (action : Run α) : Except Fault α × Realm :=
  (ExceptT.run action).erase.run r

/-- The path of the global object. -/
def globalPath : String := "globalThis"

variable [Machine]

/-- Records the paths of what can be reached from the global object, if that is asked for. -/
def recordGlobals : Run Unit := do
  let r ← get
  if r.config.registerGlobalRoot then
    let _ ← registerHostRoot (.object r.known.global) globalPath

/-- A new realm, or the failure to start one. -/
def Realm.start (config : Config) : Except Fault Realm :=
  match (Realm.fresh config).run recordGlobals with
  | (.ok _, r) => .ok r
  | (.error fault, _) => .error fault

/-- The label of scripts that run. -/
def scriptLabel : String := "<script>"

/-- Runs a script. The answer is the value of its last expression. -/
def evalScript (source : String) : Run Value := do
  match Script.parseScript source scriptLabel with
  | .ok p => runProgram p
  | .error e => raise (.source e)

/-- Instruments a script and runs it. -/
def evalInstrumented (source : String) : Run Value := do
  match Script.instrument source (← get).config.wrapExpressions with
  | .ok text =>
    note "transpiler" "instrument" outcomeAllow noErrorCode
      ("bytes_in=" ++ toString source.utf8ByteSize ++ " bytes_out=" ++ toString text.utf8ByteSize)
    evalScript text
  | .error e =>
    let cause : EngineError := .source e
    note "transpiler" "instrument" outcomeDeny cause.code cause.message
    raise cause

/-- The value of a global variable. -/
def getGlobal (name : String) : Run Value := do readVariable (← get).scriptEnv name

/-- Gives the global object a property. -/
def setGlobal (name : String) (v : Value) : Run Unit := do
  defineOrThrow (← get).known.global (.text name) (.plain v)

end Stasis
