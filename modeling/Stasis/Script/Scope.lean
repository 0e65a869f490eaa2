import Stasis.Script.Tree

/-!
# Which declaration a name refers to

Scopes are numbered in the order in which a walk through the tree opens them, so a scope's parent
has a smaller number. All names of a scope are known when it is opened. Lexical `this` is treated
as a name that plain functions, field initializers and the script declare.

* `Analysis.ancestors`: a scope and the scopes around it, innermost first.
* `Analysis.resolve`: the scope that declares a name.
* `analyze`: all scopes, references and constructs of a script.
* `Analysis.captured`: the references in a construct that resolve outside of it.
-/

namespace Stasis.Script

/-- The name by which lexical `this` is resolved. -/
def thisName : String := "this"

/-- The number of a scope. -/
abbrev ScopeId := Nat

/-- What opens a scope. -/
inductive ScopeKind where
  | program
  | function
  | block
  | «class»
  | fieldInitializer
deriving DecidableEq, Repr

/-- A scope with all the names that it declares. -/
structure Scope where
  parent : Option ScopeId
  kind : ScopeKind
  bindsThis : Bool
  names : List String
deriving Repr

/-- An occurrence of a name or of `this`. -/
structure Reference where
  name : String
  span : Span
  /-- The scope that declares it, if the script does. -/
  resolved : Option ScopeId
  /-- It is the value of a shorthand property. -/
  shorthand : Bool
deriving DecidableEq, Repr

/-- The reference lies in the span. -/
def Reference.isIn (r : Reference) (span : Span) : Bool :=
  decide (span.start ≤ r.span.start ∧ r.span.stop ≤ span.stop)

/-- A function, a class or the initializer of a field, with the scope that it opens. -/
structure Construct where
  id : NodeId
  scope : ScopeId
  span : Span
deriving DecidableEq, Repr

/-- What is known of the names of a script. -/
structure Analysis where
  scopes : Array Scope := #[]
  references : Array Reference := #[]
  constructs : Array Construct := #[]

namespace Analysis

variable (a : Analysis)

/-- A scope and the scopes around it, innermost first. -/
def ancestors (scope : ScopeId) : List ScopeId :=
  match a.scopes[scope]?.bind (·.parent) with
  | none => [scope]
  | some parent => if parent < scope then scope :: ancestors parent else [scope]
termination_by scope

/-- The scope itself declares the name. -/
def declares (name : String) (scope : ScopeId) : Bool :=
  a.scopes[scope]?.any fun s => if name = thisName then s.bindsThis else s.names.contains name

/-- The innermost scope around `scope`, or itself, that declares the name. -/
def resolve (name : String) (scope : ScopeId) : Option ScopeId :=
  (a.ancestors scope).find? (a.declares name)

/-- A scope equals another or is nested in it. -/
def isWithin (scope outer : ScopeId) : Bool :=
  (a.ancestors scope).contains outer

/-- The scope that a construct opens. -/
def constructScope? (id : NodeId) : Option ScopeId :=
  (a.constructs.find? (·.id == id)).map (·.scope)

/-- The references in a construct that resolve outside of it. -/
def captured (id : NodeId) (span : Span) : List Reference :=
  match a.constructScope? id with
  | none => []
  | some scope =>
    a.references.toList.filter fun r =>
      r.isIn span && r.resolved.any fun declared => !a.isWithin declared scope

/-- The captured names of a construct, each at its first reference. -/
def captures (id : NodeId) (span : Span) : List String :=
  ((a.captured id span).map (·.name)).eraseDups

/-- The constructs by the place where they begin, outer ones first. -/
def constructsByPlace : List Construct :=
  a.constructs.toList.mergeSort fun c d =>
    decide (c.span.start < d.span.start ∨ (c.span.start = d.span.start ∧ d.span.stop ≤ c.span.stop))

end Analysis

/-- A walk through a tree that collects its analysis. -/
abbrev Walk := StateM Analysis

/-- Opens a scope that declares the names. -/
def openScope (parent : Option ScopeId) (kind : ScopeKind) (bindsThis : Bool)
    (names : List String) : Walk ScopeId :=
  modifyGet fun a => (a.scopes.size, { a with scopes := a.scopes.push ⟨parent, kind, bindsThis, names⟩ })

/-- Notes a construct. -/
def addConstruct (id : NodeId) (scope : ScopeId) (span : Span) : Walk Unit :=
  modify fun a => { a with constructs := a.constructs.push ⟨id, scope, span⟩ }

/-- Notes and resolves an occurrence of a name. -/
def addReference (scope : ScopeId) (name : String) (span : Span) (shorthand : Bool) : Walk Unit :=
  modify fun a =>
    { a with references := a.references.push ⟨name, span, a.resolve name scope, shorthand⟩ }

/-- The names of a declaration. -/
def VariableDecl.names (d : VariableDecl) : List String :=
  d.declarators.map (·.binding.name)

/-- The names that a statement declares in the scope of its own statement list. -/
def Statement.lexicalNames : Statement → List String
  | .declaration d => if d.kind = .var then [] else d.names
  | .function d => (d.name.map (·.name)).toList
  | .class d => (d.name.map (·.name)).toList
  | _ => []

/-- The names that a declaration adds to the function around it. -/
def VariableDecl.varNames (d : VariableDecl) : List String :=
  if d.kind = .var then d.names else []

mutual

/-- The `var` names of a statement, nested functions left out. -/
def Statement.varNames : Statement → List String
  | .declaration d => d.varNames
  | .cond _ consequent alternate _ => consequent.varNames ++ varNamesOfOption alternate
  | .while _ body _ => body.varNames
  | .for (some (.declaration d)) _ _ body _ _ => d.varNames ++ body.varNames
  | .for _ _ _ body _ _ => body.varNames
  | .block b => b.varNames
  | .try block handler finalizer _ =>
    block.varNames ++ varNamesOfHandler handler ++ varNamesOfBlock finalizer
  | _ => []

/-- The `var` names of a block. -/
def Block.varNames : Block → List String
  | ⟨body, _, _⟩ => varNamesOfList body

/-- The `var` names of statements. -/
def varNamesOfList : List Statement → List String
  | [] => []
  | s :: body => s.varNames ++ varNamesOfList body

/-- The `var` names of an `else` part. -/
def varNamesOfOption : Option Statement → List String
  | none => []
  | some s => s.varNames

/-- The `var` names of a `catch` part. -/
def CatchClause.varNames : CatchClause → List String
  | ⟨_, body, _⟩ => body.varNames

/-- The `var` names of a `catch` part, if there is one. -/
def varNamesOfHandler : Option CatchClause → List String
  | none => []
  | some c => c.varNames

/-- The `var` names of a `finally` part. -/
def varNamesOfBlock : Option Block → List String
  | none => []
  | some b => b.varNames

end

/-- The names of a statement list that is the body of a function or a script. -/
def bodyNames (body : List Statement) : List String :=
  varNamesOfList body ++ body.flatMap Statement.lexicalNames

/-- The names in the scope of a function: its own if it is an expression, its parameters, and
what its body declares. -/
def FunctionDef.scopeNames (f : FunctionDef) : List String :=
  let own := if f.kind = .expression then (f.name.map (·.name)).toList else []
  let params := f.params.map (·.binding.name) ++ (f.rest.map (·.name)).toList
  let body := match f.body with
    | .block b => bodyNames b.body
    | .expr _ => []
  own ++ params ++ body

/-- The names in the scope of a `for`. -/
def ForInit.scopeNames : ForInit → List String
  | .declaration d => if d.kind = .var then [] else d.names
  | .expr _ => []

mutual

/-- Walks through an expression. -/
def Expr.walk (scope : ScopeId) : Expr → Walk Unit
  | .number .. | .bigint .. | .text .. | .bool .. | .null .. | .scopeLookup .. => pure ()
  | .ident name _ span => addReference scope name span false
  | .this span => addReference scope thisName span false
  | .array elements _ => walkElements scope elements
  | .object properties _ => walkProperties scope properties
  | .function d _ => d.walk scope
  | .arrow d _ => d.walk scope
  | .class d _ => d.walk scope
  | .unary _ operand _ => operand.walk scope
  | .update _ _ target _ => target.walk scope
  | .binary _ left right _ => do left.walk scope; right.walk scope
  | .logical _ left right _ => do left.walk scope; right.walk scope
  | .assign _ target value _ => do target.walk scope; value.walk scope
  | .conditional test consequent alternate _ => do
    test.walk scope
    consequent.walk scope
    alternate.walk scope
  | .call callee arguments _ => do callee.walk scope; walkArguments scope arguments
  | .new callee arguments _ => do callee.walk scope; walkArguments scope arguments
  | .member object access _ => do object.walk scope; access.walk scope
  | .superMember access _ => access.walk scope
  | .superCall arguments _ => walkArguments scope arguments
  | .sequence items _ => walkExprs scope items

/-- Walks through an element. -/
def Element.walk (scope : ScopeId) : Element → Walk Unit
  | ⟨_, value⟩ => value.walk scope

/-- Walks through the elements of an array. -/
def walkElements (scope : ScopeId) : List (Option Element) → Walk Unit
  | [] => pure ()
  | none :: rest => walkElements scope rest
  | some e :: rest => do e.walk scope; walkElements scope rest

/-- Walks through arguments. -/
def walkArguments (scope : ScopeId) : List Element → Walk Unit
  | [] => pure ()
  | e :: rest => do e.walk scope; walkArguments scope rest

/-- Walks through expressions. -/
def walkExprs (scope : ScopeId) : List Expr → Walk Unit
  | [] => pure ()
  | e :: rest => do e.walk scope; walkExprs scope rest

/-- Walks through an expression that may be absent. -/
def walkOption (scope : ScopeId) : Option Expr → Walk Unit
  | none => pure ()
  | some e => e.walk scope

/-- Walks through the name of a member. -/
def Access.walk (scope : ScopeId) : Access → Walk Unit
  | .named .. => pure ()
  | .computed key => key.walk scope

/-- Walks through the name of a property. -/
def PropertyName.walk (scope : ScopeId) : PropertyName → Walk Unit
  | .ident _ | .text _ | .number _ => pure ()
  | .computed key => key.walk scope

/-- Walks through a property. The value of a shorthand is a reference of its own kind. -/
def Property.walk (scope : ScopeId) : Property → Walk Unit
  | .keyValue key (.ident name _ span) shorthand _ => do
    key.walk scope
    addReference scope name span shorthand
  | .keyValue key value _ _ => do key.walk scope; value.walk scope
  | .method key d _ => do key.walk scope; d.walk scope
  | .getter key d _ => do key.walk scope; d.walk scope
  | .setter key d _ => do key.walk scope; d.walk scope
  | .spread value _ => value.walk scope

/-- Walks through the properties of an object. -/
def walkProperties (scope : ScopeId) : List Property → Walk Unit
  | [] => pure ()
  | p :: rest => do p.walk scope; walkProperties scope rest

/-- Walks through a function: its defaults, then its body, in a scope of its own. -/
def FunctionDef.walk (scope : ScopeId) : FunctionDef → Walk Unit
  | ⟨id, kind, name, params, rest, body, span, paramsStart⟩ => do
    let f : FunctionDef := ⟨id, kind, name, params, rest, body, span, paramsStart⟩
    -- a default sees every name of the function, those of its body too
    let inner ← openScope (some scope) .function kind.bindsThis f.scopeNames
    addConstruct id inner span
    walkParams inner params
    body.walk inner

/-- Walks through the defaults of parameters. -/
def walkParams (scope : ScopeId) : List Param → Walk Unit
  | [] => pure ()
  | p :: rest => do p.walk scope; walkParams scope rest

/-- Walks through the default of a parameter. -/
def Param.walk (scope : ScopeId) : Param → Walk Unit
  | ⟨_, value⟩ => walkOption scope value

/-- Walks through the body of a function, in the scope of the function. -/
def FunctionBody.walk (scope : ScopeId) : FunctionBody → Walk Unit
  | .block b => b.walkInside scope
  | .expr value => value.walk scope

/-- Walks through a class in a scope of its own, which declares its name. -/
def ClassDef.walk (scope : ScopeId) : ClassDef → Walk Unit
  | ⟨id, name, superClass, constructor, members, span, _⟩ => do
    let inner ← openScope (some scope) .class false (name.map (·.name)).toList
    addConstruct id inner span
    walkOption inner superClass
    walkConstructor inner constructor
    walkMembers inner members

/-- Walks through a constructor that may be absent. -/
def walkConstructor (scope : ScopeId) : Option FunctionDef → Walk Unit
  | none => pure ()
  | some d => d.walk scope

/-- Walks through the members of a class. -/
def walkMembers (scope : ScopeId) : List ClassMember → Walk Unit
  | [] => pure ()
  | m :: rest => do m.walk scope; walkMembers scope rest

/-- Walks through a member of a class. -/
def ClassMember.walk (scope : ScopeId) : ClassMember → Walk Unit
  | ⟨key, _, kind, _⟩ => do key.walk scope; kind.walk scope

/-- Walks through what a member is. An initializer has a scope of its own. -/
def MemberKind.walk (scope : ScopeId) : MemberKind → Walk Unit
  | .method d => d.walk scope
  | .getter d => d.walk scope
  | .setter d => d.walk scope
  | .field none _ => do
    let _ ← openScope (some scope) .fieldInitializer true []
    pure ()
  | .field (some value) id => do
    let inner ← openScope (some scope) .fieldInitializer true []
    addConstruct id inner value.span
    value.walk inner

/-- Walks through the statements of a block without a scope of its own. -/
def Block.walkInside (scope : ScopeId) : Block → Walk Unit
  | ⟨body, _, _⟩ => walkStatements scope body

/-- Walks through a block in a scope of its own. -/
def Block.walk (scope : ScopeId) : Block → Walk Unit
  | ⟨body, _, _⟩ => do
    let inner ← openScope (some scope) .block false (body.flatMap Statement.lexicalNames)
    walkStatements inner body

/-- Walks through a block that may be absent. -/
def walkBlock (scope : ScopeId) : Option Block → Walk Unit
  | none => pure ()
  | some b => b.walk scope

/-- Walks through statements. -/
def walkStatements (scope : ScopeId) : List Statement → Walk Unit
  | [] => pure ()
  | s :: rest => do s.walk scope; walkStatements scope rest

/-- Walks through a declaration. -/
def VariableDecl.walk (scope : ScopeId) : VariableDecl → Walk Unit
  | ⟨_, declarators, _⟩ => walkDeclarators scope declarators

/-- Walks through the variables of a declaration. -/
def walkDeclarators (scope : ScopeId) : List Declarator → Walk Unit
  | [] => pure ()
  | d :: rest => do d.walk scope; walkDeclarators scope rest

/-- Walks through the value of a variable. -/
def Declarator.walk (scope : ScopeId) : Declarator → Walk Unit
  | ⟨_, value⟩ => walkOption scope value

/-- Walks through the start of a `for`. -/
def ForInit.walk (scope : ScopeId) : ForInit → Walk Unit
  | .declaration d => d.walk scope
  | .expr value => value.walk scope

/-- Walks through the start of a `for` that may be absent. -/
def walkForInit (scope : ScopeId) : Option ForInit → Walk Unit
  | none => pure ()
  | some i => i.walk scope

/-- Walks through a `catch` part. Its parameter has a scope around that of its block. -/
def CatchClause.walk (scope : ScopeId) : CatchClause → Walk Unit
  | ⟨param, body, _⟩ => do
    -- the body opens its own scope inside of this one
    let inner ← openScope (some scope) .block false (param.map (·.name)).toList
    body.walk inner

/-- Walks through a `catch` part that may be absent. -/
def walkHandler (scope : ScopeId) : Option CatchClause → Walk Unit
  | none => pure ()
  | some c => c.walk scope

/-- Walks through an `else` part. -/
def walkAlternate (scope : ScopeId) : Option Statement → Walk Unit
  | none => pure ()
  | some s => s.walk scope

/-- Walks through a statement. -/
def Statement.walk (scope : ScopeId) : Statement → Walk Unit
  | .declaration d => d.walk scope
  | .function d => d.walk scope
  | .class d => d.walk scope
  | .expr value _ => value.walk scope
  | .ret value _ => walkOption scope value
  | .cond test consequent alternate _ => do
    test.walk scope
    consequent.walk scope
    walkAlternate scope alternate
  | .while test body _ => do test.walk scope; body.walk scope
  | .for start test update body _ _ => do
    let inner ← openScope (some scope) .block false ((start.map ForInit.scopeNames).getD [])
    walkForInit inner start
    walkOption inner test
    walkOption inner update
    body.walk inner
  | .block b => b.walk scope
  | .throw value _ => value.walk scope
  | .try block handler finalizer _ => do
    block.walk scope
    walkHandler scope handler
    walkBlock scope finalizer
  | .break _ | .continue _ | .empty _ => pure ()

end

/-- The scopes, references and constructs of a script. -/
def analyze (p : Program) : Analysis :=
  let walk : Walk Unit := do
    let root ← openScope none .program true (bodyNames p.body)
    walkStatements root p.body
  (walk.run {}).2

end Stasis.Script
