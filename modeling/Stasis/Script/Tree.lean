import Stasis.Number.Layout
import Stasis.Script.Span

/-!
# The tree of a script

Every node has the span of its source text. Nodes that open a scope, bind a name or refer to one
also have a number, unique within the tree, by which scope analysis speaks of them.

* `Expr`, `Statement`, `FunctionDef`, `ClassDef`: the nodes.
* `Expr.span`, `Statement.span`: their places.
* `FunctionDef.length`: the parameters before the first default or rest parameter.
* `PropertyName.static?`: the key that a name denotes without evaluation.
-/

namespace Stasis.Script

/-- The number of a node within its tree. Numbers are counted up from zero while a script is read. They
are below its length in bytes, so they never exceed 32 bits in a script that is shorter than 4 GiB. -/
abbrev NodeId := Nat

/-- A declared name. -/
structure Binding where
  name : String
  span : Span
  id : NodeId
deriving Repr

/-- The keyword of a declaration. -/
inductive VariableKind where
  | var
  | «let»
  | const
deriving DecidableEq, Repr

/-- How a function is written. -/
inductive FunctionKind where
  | declaration
  | expression
  | arrow
  | method
  | getter
  | setter
  | constructor
deriving DecidableEq, Repr

/-- Only plain functions can be constructors of objects. -/
def FunctionKind.isConstructable : FunctionKind → Bool
  | declaration | expression => true
  | arrow | method | getter | setter | constructor => false

/-- Arrows take `this` from around them. -/
def FunctionKind.bindsThis (kind : FunctionKind) : Bool :=
  kind != .arrow

/-- Operators before one operand. -/
inductive UnaryOp where
  | not
  | minus
  | plus
  | bitNot
  | typeOf
  | void
  | delete
deriving DecidableEq, Repr

/-- Operators that step a variable. -/
inductive UpdateOp where
  | increment
  | decrement
deriving DecidableEq, Repr

/-- Operators that evaluate both operands. -/
inductive BinaryOp where
  | add | sub | mul | div | rem | exp
  | eq | notEq | strictEq | strictNotEq
  | lt | gt | ltEq | gtEq
  | bitAnd | bitOr | bitXor
  | instanceOf | in
deriving DecidableEq, Repr

/-- Operators that may skip their right operand. -/
inductive LogicalOp where
  | and
  | or
  | nullish
deriving DecidableEq, Repr

/-- Operators that write to a target. -/
inductive AssignOp where
  | assign
  | add | sub | mul | div | rem
  | and | or | nullish
deriving DecidableEq, Repr

/-- The arithmetic of a compound assignment. -/
def AssignOp.binary? : AssignOp → Option BinaryOp
  | add => some .add
  | sub => some .sub
  | mul => some .mul
  | div => some .div
  | rem => some .rem
  | assign | and | or | nullish => none

/-- The condition of a compound assignment that may not write. -/
def AssignOp.logical? : AssignOp → Option LogicalOp
  | and => some .and
  | or => some .or
  | nullish => some .nullish
  | assign | add | sub | mul | div | rem => none

mutual

/-- An expression. -/
inductive Expr where
  | number (value : Float) (span : Span)
  | bigint (value : Int) (span : Span)
  | text (value : String) (span : Span)
  | bool (value : Bool) (span : Span)
  | null (span : Span)
  | ident (name : String) (id : NodeId) (span : Span)
  | this (span : Span)
  /-- A look-up in the scope table of a recorded source. -/
  | scopeLookup (name : String) (span : Span)
  | array (elements : List (Option Element)) (span : Span)
  | object (properties : List Property) (span : Span)
  | function (definition : FunctionDef) (span : Span)
  | arrow (definition : FunctionDef) (span : Span)
  | «class» (definition : ClassDef) (span : Span)
  | unary (op : UnaryOp) (operand : Expr) (span : Span)
  | update (op : UpdateOp) (before : Bool) (target : Expr) (span : Span)
  | binary (op : BinaryOp) (left right : Expr) (span : Span)
  | logical (op : LogicalOp) (left right : Expr) (span : Span)
  | assign (op : AssignOp) (target value : Expr) (span : Span)
  | conditional (test consequent alternate : Expr) (span : Span)
  | call (callee : Expr) (arguments : List Element) (span : Span)
  | new (callee : Expr) (arguments : List Element) (span : Span)
  | member (object : Expr) (access : Access) (span : Span)
  | superMember (access : Access) (span : Span)
  | superCall (arguments : List Element) (span : Span)
  | sequence (items : List Expr) (span : Span)

/-- An element of an array literal, or an argument of a call. -/
structure Element where
  spread : Bool
  value : Expr

/-- The name of a property in an object literal or a class. -/
inductive PropertyName where
  | ident (name : String)
  | text (value : String)
  | number (value : Float)
  | computed (key : Expr)

/-- How a member is named behind an object. -/
inductive Access where
  | named (name : String) (span : Span)
  | computed (key : Expr)

/-- A part of an object literal. -/
inductive Property where
  | keyValue (key : PropertyName) (value : Expr) (shorthand : Bool) (span : Span)
  | method (key : PropertyName) (definition : FunctionDef) (span : Span)
  | getter (key : PropertyName) (definition : FunctionDef) (span : Span)
  | setter (key : PropertyName) (definition : FunctionDef) (span : Span)
  | spread (value : Expr) (span : Span)

/-- A function. For methods and accessors the span begins at the parameter list. -/
structure FunctionDef where
  id : NodeId
  kind : FunctionKind
  name : Option Binding
  params : List Param
  rest : Option Binding
  body : FunctionBody
  span : Span
  paramsStart : Nat

/-- A parameter. -/
structure Param where
  binding : Binding
  default : Option Expr

/-- The body of a function. -/
inductive FunctionBody where
  | block (body : Block)
  | expr (value : Expr)

/-- A class. -/
structure ClassDef where
  id : NodeId
  name : Option Binding
  superClass : Option Expr
  constructor : Option FunctionDef
  members : List ClassMember
  span : Span
  declaration : Bool

/-- A member of a class other than its constructor. -/
structure ClassMember where
  key : PropertyName
  static : Bool
  kind : MemberKind
  span : Span

/-- What a member of a class is. -/
inductive MemberKind where
  | method (definition : FunctionDef)
  | getter (definition : FunctionDef)
  | setter (definition : FunctionDef)
  | field (value : Option Expr) (id : NodeId)

/-- A block in braces. -/
structure Block where
  body : List Statement
  span : Span
  id : NodeId

/-- One variable of a declaration. -/
structure Declarator where
  binding : Binding
  value : Option Expr

/-- A declaration of variables. -/
structure VariableDecl where
  kind : VariableKind
  declarators : List Declarator
  span : Span

/-- The `catch` part of a `try`. -/
structure CatchClause where
  param : Option Binding
  body : Block
  id : NodeId

/-- What stands before the first `;` of a `for`. -/
inductive ForInit where
  | declaration (decl : VariableDecl)
  | expr (value : Expr)

/-- A statement. -/
inductive Statement where
  | declaration (decl : VariableDecl)
  | function (definition : FunctionDef)
  | «class» (definition : ClassDef)
  | expr (value : Expr) (span : Span)
  | ret (value : Option Expr) (span : Span)
  | cond (test : Expr) (consequent : Statement) (alternate : Option Statement) (span : Span)
  | while (test : Expr) (body : Statement) (span : Span)
  | for (start : Option ForInit) (test update : Option Expr) (body : Statement) (span : Span)
      (id : NodeId)
  | block (block : Block)
  | throw (value : Expr) (span : Span)
  | try (block : Block) (handler : Option CatchClause) (finalizer : Option Block) (span : Span)
  | break (span : Span)
  | continue (span : Span)
  | empty (span : Span)

end

instance : Inhabited Expr := ⟨.null .none⟩

/-- The place of an expression. -/
def Expr.span : Expr → Span
  | number _ s | bigint _ s | text _ s | bool _ s | null s | ident _ _ s | this s
  | scopeLookup _ s | array _ s | object _ s | function _ s | arrow _ s | «class» _ s
  | unary _ _ s | update _ _ _ s | binary _ _ _ s | logical _ _ _ s | assign _ _ _ s
  | conditional _ _ _ s | call _ _ s | new _ _ s | member _ _ s | superMember _ s
  | superCall _ s | sequence _ s => s

/-- The place of a statement. -/
def Statement.span : Statement → Span
  | declaration decl => decl.span
  | function definition => definition.span
  | «class» definition => definition.span
  | block b => b.span
  | expr _ s | ret _ s | cond _ _ _ s | «while» _ _ s | «for» _ _ _ _ s _ | throw _ s
  | «try» _ _ _ s | «break» s | «continue» s | empty s => s

/-- The place of a part of an object literal. -/
def Property.span : Property → Span
  | keyValue _ _ _ s | method _ _ s | getter _ _ s | setter _ _ s | spread _ s => s

/-- Only these can be written to. -/
def Expr.isAssignable : Expr → Bool
  | ident .. | member .. | superMember .. | scopeLookup .. => true
  | _ => false

/-- Functions and classes without a name of their own take that of what they are assigned to. -/
def Expr.isAnonymousDefinition : Expr → Bool
  | function definition _ => definition.name.isNone
  | arrow .. => true
  | «class» definition _ => definition.name.isNone
  | _ => false

/-- The parameters before the first with a default. -/
def FunctionDef.length (f : FunctionDef) : Nat :=
  (f.params.takeWhile fun p => p.default.isNone).length

/-- The key that a name denotes without evaluation. -/
def PropertyName.static? : PropertyName → Option String
  | ident name => some name
  | text value => some value
  | number value => some (Number.scriptText value)
  | computed _ => none

/-- A parsed script. -/
structure Program where
  body : List Statement
  span : Span

end Stasis.Script
