import Stasis.Evaluate.Class
import Stasis.Evaluate.Operator

/-!
# Expressions

* `Place`: what can be assigned to, with its object and key evaluated.
* `evalExpr`: the value of an expression.
-/

namespace Stasis

open Script (Access AssignOp Element Expr LogicalOp Property UnaryOp UpdateOp)

/-- What can be assigned to. -/
inductive Place where
  | variable (name : String)
  | captured (name : String)
  | property (base : Value) (key : Key)
  | superProperty (key : Key) (this : Value) (home : ObjectId)

/-- A callee in messages. -/
def describeExpr : Expr → String
  | .ident name .. => name
  | .scopeLookup name _ => name
  | .this _ => "this"
  | .member o (.named name _) _ => describeExpr o ++ "." ++ name
  | .member o (.computed _) _ => describeExpr o ++ "[...]"
  | .superMember (.named name _) _ => "super." ++ name
  | _ => "expression"

/-- A left operand decides the value of a logical operator. -/
def LogicalOp.isDecidedBy (op : LogicalOp) (v : Value) : Bool :=
  match op with
  | .and => !v.isTruthy
  | .or => v.isTruthy
  | .nullish => !v.isNullish

variable [Machine]

/-- The key by which a member is named. -/
def accessKey (a : Access) (env : EnvId) : Run Key := do
  match a with
  | .named name _ => return .text name
  | .computed e => toKey (← eval e env)

/-- The value of an element or an argument, or the values that a spread gives. -/
def elementValues (x : Element) (env : EnvId) : Run (List Value) := do
  let v ← eval x.value env
  if x.spread then iterated v else return [v]

/-- The values of arguments. -/
def argumentValues (xs : List Element) (env : EnvId) : Run (List Value) := do
  return (← xs.mapM fun x => elementValues x env).flatten

/-- Adds values to an array from an index on. -/
def addElements (id : ObjectId) (index : Nat) : List Value → Run Unit
  | [] => return ()
  | v :: rest => do
    addProperty id (.ofIndex index) v
    addElements id (index + 1) rest

/-- Fills an array from an index on; the answer is its length. -/
def fillArray (id : ObjectId) (env : EnvId) (index : Nat) : List (Option Element) → Run Nat
  | [] => return index
  | none :: rest => fillArray id env (index + 1) rest
  | some x :: rest => do
    let values ← elementValues x env
    addElements id index values
    fillArray id env (index + values.length) rest

/-- The value of an array literal. -/
def evalArray (elements : List (Option Element)) (env : EnvId) : Run Value := do
  let id ← newArray []
  let length ← fillArray id env 0 elements
  -- holes at the end count
  setProperty (.object id) .length (.number (Float.ofNat length))
  return .object id

/-- Copies enumerable properties of a value. -/
def copyProperties (target : ObjectId) (source : Value) : Run Unit := do
  match source with
  | .object id =>
    for (key, d) in (← objectAt id).ownEntries do
      if d.isEnumerable then
        addProperty target key (← getFrom id key source)
  | .text s =>
    for (c, index) in s.toList.zipIdx do
      addProperty target (.ofIndex index) (.text c.toString)
  | _ => return ()

/-- Adds a part of an object literal. -/
def addPart (id : ObjectId) (env : EnvId) (p : Property) : Run Unit := do
  match p with
  | .keyValue name value _ _ =>
    let key ← keyOfName name env
    addProperty id key (← evalNamed value (← functionNameFor key) env)
  | .method name d _ =>
    let key ← keyOfName name env
    addProperty id key (.object (← newFunction d env (some id) (some (← functionNameFor key))))
  | .getter name d _ =>
    let key ← keyOfName name env
    let f ← newFunction d env (some id) (some (← functionNameFor key))
    mergeAccessor id key (some f) none true
  | .setter name d _ =>
    let key ← keyOfName name env
    let f ← newFunction d env (some id) (some (← functionNameFor key))
    mergeAccessor id key none (some f) true
  | .spread e _ => copyProperties id (← eval e env)

/-- The value of an object literal. -/
def evalObject (parts : List Property) (env : EnvId) : Run Value := do
  let id ← newObject
  parts.forM (addPart id env)
  return .object id

/-- A member behind the home object. -/
def superGet (home : ObjectId) (key : Key) (this : Value) : Run Value := do
  match (← objectAt home).prototype with
  | some prototype => getFrom prototype key this
  | none => return .undefined

/-- The key, `this` and the home object for a member behind `super`. -/
def superParts (a : Access) (env : EnvId) : Run (Key × Value × ObjectId) := do
  let key ← accessKey a env
  let this ← thisValue env
  let home ← homeObject env
  return (key, this, home)

/-- Evaluates the parts of a target. -/
def evalPlace (target : Expr) (env : EnvId) : Run Place := do
  match target with
  | .ident name .. => return .variable name
  | .scopeLookup name _ => return .captured name
  | .member o a _ =>
    let base ← eval o env
    return .property base (← accessKey a env)
  | .superMember a _ =>
    let (key, this, home) ← superParts a env
    return .superProperty key this home
  | _ => throwSyntax "Invalid left-hand side in assignment"

/-- The present value of a place. -/
def readPlace (p : Place) (env : EnvId) : Run Value := do
  match p with
  | .variable name => readVariable env name
  | .captured name => readScope (← scopeAt env) name
  | .property base key => getProperty base key
  | .superProperty key this home => superGet home key this

/-- Assigns to a place. -/
def writePlace (p : Place) (v : Value) (env : EnvId) : Run Unit := do
  match p with
  | .variable name => writeVariable env name v
  | .captured name => writeScope (← scopeAt env) name v
  | .property base key => setProperty base key v
  | .superProperty key this _ => setProperty this key v

/-- The value to be assigned. Variables give their names to functions. -/
def evalFor (p : Place) (e : Expr) (env : EnvId) : Run Value :=
  match p with
  | .variable name | .captured name => evalNamed e name env
  | .property .. | .superProperty .. => eval e env

/-- The value of an assignment. -/
def evalAssign (op : AssignOp) (target value : Expr) (env : EnvId) : Run Value := do
  let p ← evalPlace target env
  match op.logical?, op.binary? with
  | some logical, _ =>
    let current ← readPlace p env
    if LogicalOp.isDecidedBy logical current then return current
    let v ← evalFor p value env
    writePlace p v env
    return v
  | none, some arithmetic =>
    let current ← readPlace p env
    let v ← binary arithmetic current (← eval value env)
    writePlace p v env
    return v
  | none, none =>
    let v ← evalFor p value env
    writePlace p v env
    return v

/-- The value of `++` or `--`. -/
def evalUpdate (op : UpdateOp) (before : Bool) (target : Expr) (env : EnvId) : Run Value := do
  let p ← evalPlace target env
  let old ← toNumeric (← readPlace p env)
  let new := stepped old (match op with
    | .increment => 1
    | .decrement => -1)
  writePlace p new.value env
  return if before then new.value else old.value

/-- The value of an operator before one operand. -/
def evalUnary (op : UnaryOp) (operand : Expr) (env : EnvId) : Run Value := do
  match op, operand with
  | .typeOf, .ident name .. =>
    -- a name that nothing declares has a type, though it has no value
    if (← ofRealm fun r => r.holder? env name).isNone then return .text "undefined"
    let v ← eval operand env
    return .text ((← get).typeOf v)
  | .typeOf, _ =>
    let v ← eval operand env
    return .text ((← get).typeOf v)
  | .delete, .member o a _ =>
    let base ← eval o env
    return .bool (← deleteProperty base (← accessKey a env))
  | .delete, .ident .. => throwSyntax "Delete of an unqualified identifier in strict mode."
  | .delete, _ =>
    let _ ← eval operand env
    return .bool true
  | .void, _ =>
    let _ ← eval operand env
    return .undefined
  | .not, _ => return .bool !(← eval operand env).isTruthy
  | .plus, _ => return .number (← toNumber (← eval operand env))
  | .minus, _ => negate (← eval operand env)
  | .bitNot, _ => invert (← eval operand env)

/-- The function that a call is about, and its `this`. -/
def evalCallee (callee : Expr) (env : EnvId) : Run (Value × Value) := do
  match callee with
  | .member o a _ =>
    let base ← eval o env
    let key ← accessKey a env
    return (← getProperty base key, base)
  | .superMember a _ =>
    let (key, this, home) ← superParts a env
    return (← superGet home key this, this)
  | _ => return (← eval callee env, .undefined)

/-- The value of a call. -/
def evalCall (callee : Expr) (arguments : List Element) (env : EnvId) : Run Value := do
  let (f, this) ← evalCallee callee env
  let args ← argumentValues arguments env
  -- arguments are evaluated even if there is nothing to call
  if !(← get).isCallable f then throwType (describeExpr callee ++ " is not a function")
  call f this args

/-- The value of `new`. -/
def evalNew (callee : Expr) (arguments : List Element) (env : EnvId) : Run Value := do
  let constructor ← eval callee env
  let args ← argumentValues arguments env
  match constructor with
  | .object target =>
    if (← get).isConstructor constructor then construct constructor args target
    else throwType (describeExpr callee ++ " is not a constructor")
  | _ => throwType (describeExpr callee ++ " is not a constructor")

/-- The value of the last expression. -/
def evalSequence (env : EnvId) (last : Value) : List Expr → Run Value
  | [] => return last
  | e :: rest => do evalSequence env (← eval e env) rest

/-- The value of an expression. -/
def evalExpr (e : Expr) (name : Option String) (env : EnvId) : Run Value := do
  match e with
  | .number x _ => return .number x
  | .bigint n _ => return .bigint n
  | .text s _ => return .text s
  | .bool b _ => return .bool b
  | .null _ => return .null
  | .ident x .. => readVariable env x
  | .this _ => thisValue env
  | .scopeLookup x _ => readScope (← scopeAt env) x
  | .array elements _ => evalArray elements env
  | .object parts _ => evalObject parts env
  | .function d _ => functionValue d env name
  | .arrow d _ => return .object (← newFunction d env none name)
  | .class d _ => evalClass d env name
  | .unary op a _ => evalUnary op a env
  | .update op before target _ => evalUpdate op before target env
  | .binary op l r _ =>
    let left ← eval l env
    let right ← eval r env
    binary op left right
  | .logical op l r _ =>
    let left ← eval l env
    if LogicalOp.isDecidedBy op left then return left
    eval r env
  | .assign op target value _ => evalAssign op target value env
  | .conditional test yes no _ =>
    if (← eval test env).isTruthy then eval yes env else eval no env
  | .call callee arguments _ => evalCall callee arguments env
  | .new callee arguments _ => evalNew callee arguments env
  | .member o a _ =>
    let base ← eval o env
    let key ← accessKey a env
    getProperty base key
  | .superMember a _ =>
    let (key, this, home) ← superParts a env
    superGet home key this
  | .superCall arguments _ => superCall env (← argumentValues arguments env)
  | .sequence items _ => evalSequence env .undefined items

end Stasis
