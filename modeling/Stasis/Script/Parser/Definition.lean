import Stasis.Script.Stream

/-!
# Functions and classes

The grammar is recursive, and its rules are written against a record of the rules they refer to:
`Rules` has one reader for every point at which the grammar comes back to itself. The knot is
tied in `Stasis.Script.Parser`.

* `Rules.block`, `Rules.parameters`: the parts of a function.
* `Rules.function`, `Rules.method`, `Rules.arrow`: the ways to write one.
* `Rules.class`: classes, with their constructor apart from the other members.
-/

namespace Stasis.Script

open Parse

/-- The readers through which the grammar comes back to itself. -/
structure Rules where
  statement : Parse Statement
  assignment : Parse Expr
  unary : Parse Expr
  /-- Operands joined by operators of at least the given precedence. -/
  binary : Nat → Parse Expr
  leftHandSide : Parse Expr
  new : Parse Expr

namespace Rules

variable (r : Rules)

/-- Statements up to a closing brace, which is taken too. -/
def statementsToBrace : Parse (List Statement) :=
  Parse.repeat (σ := List Statement)
    (fun body => do
      if ← isPunct .closeBrace then
        let _ ← advance
        return .inr body.reverse
      if ← atEof then unexpected
      return .inl ((← r.statement) :: body))
    []

/-- A block in braces. -/
def block : Parse Block := do
  let start ← expect .openBrace
  let body ← r.statementsToBrace
  return ⟨body, ← spanFrom start.span, ← freshId⟩

/-- The value behind `=`, if there is one. -/
def optionalValue : Parse (Option Expr) := do
  if ← eat .assign then return some (← r.assignment) else return none

/-- A parameter list in parentheses. -/
def parameters : Parse (List Param × Option Binding) := do
  let _ ← expect .openParen
  let (params, rest) ← Parse.repeat (σ := List Param) (α := List Param × Option Binding)
    (fun params => do
      if ← isPunct .closeParen then return .inr (params, none)
      if ← eat .dots then return .inr (params, some (← binding))
      if (← isPunct .openBracket) || (← isPunct .openBrace) then
        reject (.unsupported .destructuringParameters)
      let name ← binding
      let value ← r.optionalValue
      let params := ⟨name, value⟩ :: params
      if ← eat .comma then return .inl params else return .inr (params, none))
    []
  let _ ← expect .closeParen
  return (params.reverse, rest)

/-- `function name(params) { body }`, as a declaration or an expression. -/
def function (kind : FunctionKind) : Parse FunctionDef := do
  let start := (← expectWord "function").span
  if ← isPunct .star then reject (.unsupported .generatorFunctions)
  let name ←
    if kind = .declaration then pure (some (← binding))
    else if ← isPunct .openParen then pure none
    else pure (some (← binding))
  let paramsStart := (← peek).span.start
  let (params, rest) ← r.parameters
  let body ← r.block
  return ⟨← freshId, kind, name, params, rest, .block body, ← spanFrom start, paramsStart⟩

/-- `(params) { body }`, as behind the name of a method. -/
def method (kind : FunctionKind) : Parse FunctionDef := do
  let start := (← peek).span
  let (params, rest) ← r.parameters
  let body ← r.block
  return ⟨← freshId, kind, none, params, rest, .block body, ← spanFrom start, start.start⟩

/-- The parameters of an arrow: a list in parentheses or a lone name. -/
def arrowParameters : Parse (List Param × Option Binding) := do
  if ← isPunct .openParen then r.parameters
  else return ([⟨← binding, none⟩], none)

/-- `params => body`. -/
def arrow : Parse Expr := do
  let start := (← peek).span
  let (params, rest) ← r.arrowParameters
  if (← peek).newlineBefore then unexpected
  let _ ← expect .arrow
  let body ← (do
    if ← isPunct .openBrace then return FunctionBody.block (← r.block)
    else return FunctionBody.expr (← r.assignment))
  let span ← spanFrom start
  return .arrow ⟨← freshId, .arrow, none, params, rest, body, span, start.start⟩ span

/-- The name of a property in an object literal or a class. -/
def propertyName : Parse PropertyName := do
  match (← peek).kind with
  | .ident name =>
    let _ ← advance
    return .ident name
  | .text value =>
    let _ ← advance
    return .text value
  | .number value =>
    let _ ← advance
    return .number value
  | .punct .openBracket =>
    let _ ← advance
    let key ← r.assignment
    let _ ← expect .closeBracket
    return .computed key
  | .punct .hash => reject (.unsupported .privateNames)
  | _ => unexpected

/-- A modifier word is itself the name of a member if one of these marks follows it. -/
def endsMemberName (t : Token) : Bool :=
  t.isPunct .openParen || t.isPunct .assign || t.isPunct .semicolon || t.isPunct .closeBrace
    || t.isPunct .colon || t.isPunct .comma

/-- The next token is the word, as a modifier of the member name behind it. -/
def isModifier (word : String) : Parse Bool := do
  return (← peek).isWord word && !endsMemberName (← peekAt 1)

/-- The key of a member makes it the constructor. -/
def isConstructorName : PropertyName → Bool
  | .ident name | .text name => name == "constructor"
  | .number _ | .computed _ => false

/-- `get` or `set` before the name of an accessor. -/
def accessorKind : Parse (Option FunctionKind) := do
  if ← isModifier "get" then
    let _ ← advance
    return some .getter
  if ← isModifier "set" then
    let _ ← advance
    return some .setter
  return none

/-- The function behind the name of a member. -/
def memberFunction (accessor : Option FunctionKind) : Parse MemberKind := do
  match accessor with
  | some .getter => return .getter (← r.method .getter)
  | some .setter => return .setter (← r.method .setter)
  | _ => return .method (← r.method .method)

/-- One member of a class, given the constructor so far: the constructor or another member. -/
def classMember (known : Option FunctionDef) : Parse (FunctionDef ⊕ ClassMember) := do
  let start := (← peek).span
  let static ← isModifier "static"
  if static then
    let _ ← advance
  let accessor ← accessorKind
  if ← isModifier "async" then reject (.unsupported .asyncMethods)
  if ← isPunct .star then reject (.unsupported .generatorMethods)
  let key ← r.propertyName
  if ← isPunct .openParen then
    if !static && accessor.isNone && isConstructorName key then
      if known.isSome then reject .secondConstructor
      return .inl (← r.method .constructor)
    let kind ← r.memberFunction accessor
    return .inr ⟨key, static, kind, ← spanFrom start⟩
  if accessor.isSome then unexpected
  let value ← r.optionalValue
  endStatement
  return .inr ⟨key, static, .field value (← freshId), ← spanFrom start⟩

/-- The members of a class up to its closing brace, which is taken too. -/
def classBody : Parse (Option FunctionDef × List ClassMember) :=
  Parse.repeat (σ := Option FunctionDef × List ClassMember)
    (fun (known, members) => do
      if ← isPunct .closeBrace then
        let _ ← advance
        return .inr (known, members.reverse)
      if ← atEof then unexpected
      if ← eat .semicolon then return .inl (known, members)
      match ← r.classMember known with
      | .inl definition => return .inl (some definition, members)
      | .inr member => return .inl (known, member :: members))
    (none, [])

/-- `class name extends base { members }`, as a declaration or an expression. -/
def «class» (declaration : Bool) : Parse ClassDef := do
  let start := (← expectWord "class").span
  let unnamed := (← isWord "extends") || (← isPunct .openBrace)
  let name ← if declaration || !unnamed then pure (some (← binding)) else pure none
  let superClass ← if ← eatWord "extends" then pure (some (← r.leftHandSide)) else pure none
  let _ ← expect .openBrace
  let (constructor, members) ← r.classBody
  return ⟨← freshId, name, superClass, constructor, members, ← spanFrom start, declaration⟩

end Rules

end Stasis.Script
