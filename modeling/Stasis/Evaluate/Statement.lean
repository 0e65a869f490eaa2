import Stasis.Evaluate.Function

/-!
# Statements

* `execStatement`: runs a statement.
* `runProgram`: runs a script; the answer is the value of its last expression statement.
-/

namespace Stasis

open Script (Block CatchClause Expr ForInit Program Statement VariableDecl)

variable [Machine]

/-- Runs a block. -/
def execBlock (b : Block) (outer : EnvId) : Run Completion := do
  let env ← newBlock outer
  declareLexical env none b.body
  execAll env b.body

/-- Gives declared variables their first values. A `var` without one is left as it is. -/
def execVariables (d : VariableDecl) (env : EnvId) : Run Unit :=
  d.declarators.forM fun x => do
    let name := x.binding.name
    match d.kind, x.value with
    | .var, some e => writeVariable env name (← evalNamed e name env)
    | .var, none => return ()
    | _, some e => initializeVariable env name (← evalNamed e name env)
    | _, none => initializeVariable env name .undefined

/-- How a loop goes on after its body. -/
def afterBody {σ : Type} (next : σ) : Completion → σ ⊕ Completion
  | .normal | .continue => .inl next
  | .break => .inr .normal
  | .ret v => .inr (.ret v)

/-- Runs a `while`. -/
def execWhile (test : Expr) (body : Statement) (env : EnvId) : Run Completion :=
  repeatFrom () fun () => do
    if !(← eval test env).isTruthy then return .inr .normal
    return afterBody () (← exec body env)

/-- Adds a copy of an environment. -/
def copyEnvironment (id : EnvId) : Run EnvId := do newEnvironment (← environmentAt id)

/-- Runs the first part of a `for`; the answer tells whether each round has variables of its
own. -/
def startFor (start : Option ForInit) (outer env : EnvId) : Run Bool := do
  match start with
  | none => return false
  | some (.expr e) =>
    let _ ← eval e outer
    return false
  | some (.declaration d) =>
    if d.kind == .var then
      execVariables d outer
      return false
    for x in d.declarators do
      declare env x.binding.name (.declared (d.kind != .const))
    execVariables d env
    return d.kind == .let

/-- Runs a `for`. Variables of a round are copied before the next one changes them. -/
def execFor (start : Option ForInit) (test update : Option Expr) (body : Statement)
    (outer : EnvId) : Run Completion := do
  let env ← newBlock outer
  let fresh ← startFor start outer env
  let env ← if fresh then copyEnvironment env else pure env
  repeatFrom env fun env => do
    let goOn ← match test with
      | some e => do pure (← eval e env).isTruthy
      | none => pure true
    if !goOn then return .inr .normal
    match afterBody env (← exec body env) with
    | .inr completion => return .inr completion
    | .inl env =>
      -- functions made in this round keep its variables
      let env ← if fresh then copyEnvironment env else pure env
      match update with
      | some e => let _ ← eval e env
      | none => pure ()
      return .inl env

/-- Runs a `catch` part on what was caught. -/
def execHandler (c : CatchClause) (cause : EngineError) (outer : EnvId) : Run Completion := do
  let v ← caughtValue cause
  let env ← newBlock outer
  match c.param with
  | some binding => declare env binding.name { value := v }
  | none => pure ()
  execBlock c.body env

/-- Runs a `try`. What the `finally` part does instead of ending normally counts more than what
was done before. -/
def execTry (b : Block) (handler : Option CatchClause) (finalizer : Option Block) (env : EnvId) :
    Run Completion := do
  let outcome ← attempt (execBlock b env)
  let outcome ← match outcome, handler with
    | .error cause, some c => attempt (execHandler c cause env)
    | outcome, _ => pure outcome
  match finalizer with
  | none => ofExcept outcome
  | some f =>
    match ← execBlock f env with
    -- the value or the error of the earlier parts stands
    | .normal => ofExcept outcome
    | completion => return completion

/-- Runs a statement. -/
def execStatement (s : Statement) (env : EnvId) : Run Completion := do
  match s with
  | .declaration d =>
    execVariables d env
    return .normal
  | .function _ | .empty _ => return .normal
  | .class d =>
    let v ← eval (.class d d.span) env
    match d.name with
    | some binding => initializeVariable env binding.name v
    | none => pure ()
    return .normal
  | .expr e _ =>
    let _ ← eval e env
    return .normal
  | .ret none _ => return .ret .undefined
  | .ret (some e) _ => return .ret (← eval e env)
  | .cond test yes no _ =>
    if (← eval test env).isTruthy then exec yes env
    else
      match no with
      | some s => exec s env
      | none => return .normal
  | .while test body _ => execWhile test body env
  | .for start test update body _ _ => execFor start test update body env
  | .block b => execBlock b env
  | .throw e _ => throwValue (← eval e env)
  | .try b handler finalizer _ => execTry b handler finalizer env
  | .break _ => return .break
  | .continue _ => return .continue

/-- Runs the statements of a script. -/
def execTop (env : EnvId) (last : Value) : List Statement → Run Value
  | [] => return last
  | .expr e _ :: rest => do execTop env (← eval e env) rest
  | s :: rest => do
    match ← exec s env with
    | .ret v => return v
    | _ => execTop env last rest

/-- Runs a script. -/
def runProgram (p : Program) : Run Value := do
  let r ← get
  declareVars r.globalEnv (Script.varNamesOfList p.body)
  declareLexical r.scriptEnv (some r.globalEnv) p.body
  execTop r.scriptEnv .undefined p.body

end Stasis
