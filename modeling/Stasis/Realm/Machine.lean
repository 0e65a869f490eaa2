import Stasis.Realm.Basic

/-!
# What the parts of the engine ask of each other

Evaluating, calling, suspending and resuming call each other without end. Each is defined by
itself, for any machine that carries out the requests of the others; the engine is the machine
that carries out a request with these definitions, as deep as its bound allows.

* `Request`: what can be asked for, with the type of the answer.
* `Machine`: what carries out requests.
-/

namespace Stasis

/-- How a statement ends. -/
inductive Completion where
  | normal
  | ret (value : Value)
  | «break»
  | «continue»

/-- The state of a value that is being suspended. -/
structure Pass where
  /-- Entries by reference; an entry that is being written has its place already. -/
  entries : Table String (Option Entry)
  /-- What no path leads to is left out, and so are functions of scripts. -/
  stop : Bool

/-- What can be asked for. -/
inductive Request : Type → Type where
  /-- A function or a class without a name of its own gets the given one. -/
  | eval (e : Script.Expr) (name : Option String) (env : EnvId) : Request Value
  | exec (s : Script.Statement) (env : EnvId) : Request Completion
  | call (function this : Value) (args : List Value) : Request Value
  | construct (function : Value) (args : List Value) (newTarget : ObjectId) : Request Value
  | suspend (pass : Pass) (value : Value) (path : Option String) : Request (Tagged × Pass)
  | resolve (session : SessionId) (value : Tagged) : Request Value
  | toJson (value : Value) (seen : List ObjectId) : Request (Option Json)

/-- What carries out requests. -/
class Machine where
  /-- Loops go round this often at most. -/
  rounds : Nat
  /-- Carries out a request. -/
  run : {α : Type} → Request α → Run α

variable [Machine]

/-- Evaluates an expression. -/
def eval (e : Script.Expr) (env : EnvId) : Run Value := Machine.run (.eval e none env)

/-- Evaluates an expression whose value goes by a name. -/
def evalNamed (e : Script.Expr) (name : String) (env : EnvId) : Run Value :=
  Machine.run (.eval e (some name) env)

/-- Runs a statement. -/
def exec (s : Script.Statement) (env : EnvId) : Run Completion := Machine.run (.exec s env)

/-- Calls a function. -/
def call (function this : Value) (args : List Value) : Run Value :=
  Machine.run (.call function this args)

/-- Makes an object with a constructor. -/
def construct (function : Value) (args : List Value) (newTarget : ObjectId) : Run Value :=
  Machine.run (.construct function args newTarget)

/-- Suspends a value that a path leads to, if there is one. -/
def suspendAt (pass : Pass) (value : Value) (path : Option String) : Run (Tagged × Pass) :=
  Machine.run (.suspend pass value path)

/-- Makes the value that a tagged value stands for. -/
def resolve (session : SessionId) (value : Tagged) : Run Value :=
  Machine.run (.resolve session value)

/-- The interchange form of a value; nothing if it is left out. Objects in `seen` are around it. -/
def jsonOf (value : Value) (seen : List ObjectId) : Run (Option Json) :=
  Machine.run (.toJson value seen)

/-- Repeats an action as often as the machine allows, until it gives an answer. -/
def repeatFrom {σ α : Type} (start : σ) (action : σ → Run (σ ⊕ α)) : Run α :=
  iterate action (Machine.rounds) start

end Stasis
