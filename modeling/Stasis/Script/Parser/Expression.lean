import Stasis.Script.Parser.Definition

/-!
# Expressions

* `Rules.primaryRule`, `Rules.leftHandSideRule`: operands with their members and calls.
* `binaryOperator?`: the operators with their precedence.
* `Rules.binaryRule`: operands joined by operators, grouped by precedence.
* `Rules.assignmentRule`: everything but the comma, which is `Rules.expression`.
-/

namespace Stasis.Script

open Parse

/-- The call by which recorded source looks up a name in its scope table. -/
def scopeLookupName : String := "__$getFromScope"

/-- Does an arrow follow the parenthesis that closes the bracket at the front? -/
def arrowAhead : Nat → List Token → Bool
  | _, [] => false
  | depth, t :: rest =>
    if t.isPunct .openParen || t.isPunct .openBracket || t.isPunct .openBrace then
      arrowAhead (depth + 1) rest
    else if t.isPunct .closeParen || t.isPunct .closeBracket || t.isPunct .closeBrace then
      if depth ≤ 1 then rest.head?.any (·.isPunct .arrow) else arrowAhead (depth - 1) rest
    else arrowAhead depth rest

/-- An operator between two operands. -/
inductive InfixOp where
  | binary (op : BinaryOp)
  | logical (op : LogicalOp)
deriving DecidableEq, Repr

/-- The operator of a token with its precedence. -/
def binaryOperator? (t : Token) : Option (Nat × InfixOp) :=
  match t.kind with
  | .punct .nullish => some (1, .logical .nullish)
  | .punct .or => some (1, .logical .or)
  | .punct .and => some (2, .logical .and)
  | .punct .bitOr => some (3, .binary .bitOr)
  | .punct .bitXor => some (4, .binary .bitXor)
  | .punct .bitAnd => some (5, .binary .bitAnd)
  | .punct .eq => some (6, .binary .eq)
  | .punct .notEq => some (6, .binary .notEq)
  | .punct .strictEq => some (6, .binary .strictEq)
  | .punct .strictNotEq => some (6, .binary .strictNotEq)
  | .punct .lt => some (7, .binary .lt)
  | .punct .gt => some (7, .binary .gt)
  | .punct .ltEq => some (7, .binary .ltEq)
  | .punct .gtEq => some (7, .binary .gtEq)
  | .punct .plus => some (9, .binary .add)
  | .punct .minus => some (9, .binary .sub)
  | .punct .star => some (10, .binary .mul)
  | .punct .slash => some (10, .binary .div)
  | .punct .percent => some (10, .binary .rem)
  | .punct .pow => some (11, .binary .exp)
  | .ident name =>
    if name = "instanceof" then some (7, .binary .instanceOf)
    else if name = "in" then some (7, .binary .in)
    else none
  | _ => none

/-- The node of an operator. -/
def InfixOp.apply (op : InfixOp) (left right : Expr) : Expr :=
  let span := left.span.to right.span
  match op with
  | .binary op => .binary op left right span
  | .logical op => .logical op left right span

/-- The operator of a token before its operand. -/
def unaryOperator? (t : Token) : Option UnaryOp :=
  match t.kind with
  | .punct .not => some .not
  | .punct .minus => some .minus
  | .punct .plus => some .plus
  | .punct .tilde => some .bitNot
  | .ident name =>
    if name = "typeof" then some .typeOf
    else if name = "void" then some .void
    else if name = "delete" then some .delete
    else none
  | _ => none

/-- The stepping operator of a token. -/
def updateOperator? (t : Token) : Option UpdateOp :=
  match t.kind with
  | .punct .increment => some .increment
  | .punct .decrement => some .decrement
  | _ => none

/-- The operator of a token that writes to a target. -/
def assignOperator? (t : Token) : Option AssignOp :=
  match t.kind with
  | .punct .assign => some .assign
  | .punct .addAssign => some .add
  | .punct .subAssign => some .sub
  | .punct .mulAssign => some .mul
  | .punct .divAssign => some .div
  | .punct .remAssign => some .rem
  | .punct .andAssign => some .and
  | .punct .orAssign => some .or
  | .punct .nullishAssign => some .nullish
  | _ => none

namespace Rules

variable (r : Rules)

/-- Assignments separated by commas. -/
def expression : Parse Expr := do
  let first ← r.assignment
  if ← isPunct .comma then
    let items ← Parse.repeat (σ := List Expr)
      (fun items => do
        if ← eat .comma then return .inl ((← r.assignment) :: items)
        else return .inr items.reverse)
      [first]
    return .sequence items (← spanFrom first.span)
  else return first

/-- An assignment that may be spread. -/
def element : Parse Element := do
  let spread ← eat .dots
  return ⟨spread, ← r.assignment⟩

/-- Arguments in parentheses. -/
def arguments : Parse (List Element) := do
  let _ ← expect .openParen
  let items ← Parse.repeat (σ := List Element)
    (fun items => do
      if ← isPunct .closeParen then return .inr items
      let items := (← r.element) :: items
      if ← eat .comma then return .inl items else return .inr items)
    []
  let _ ← expect .closeParen
  return items.reverse

/-- `.name` or `[key]`. -/
def access : Parse Access := do
  if ← eat .dot then
    let token ← peek
    match token.kind with
    | .ident name =>
      let _ ← advance
      return .named name token.span
    | .punct .hash => reject (.unsupported .privateNames)
    | _ => unexpected
  else
    let _ ← expect .openBracket
    let key ← r.expression
    let _ ← expect .closeBracket
    return .computed key

/-- A member access is next. -/
def isAccess : Parse Bool := do
  let next ← peek
  return next.isPunct .dot || next.isPunct .openBracket

/-- The member of an object that has been read. -/
def memberOf (object : Expr) : Parse Expr := do
  let access ← r.access
  return .member object access (← spanFrom object.span)

/-- `[elements]`, in which a lone comma is a hole. -/
def arrayLiteral : Parse Expr := do
  let start := (← advance).span
  let elements ← Parse.repeat (σ := List (Option Element))
    (fun elements => do
      if ← isPunct .closeBracket then
        let _ ← advance
        return .inr elements.reverse
      if ← eat .comma then return .inl (none :: elements)
      let elements := some (← r.element) :: elements
      if !(← isPunct .closeBracket) then
        let _ ← expect .comma
      return .inl elements)
    []
  return .array elements (← spanFrom start)

/-- A property whose value is the variable of its name. -/
def shorthand (key : PropertyName) (span : Span) : Parse Property := do
  match key with
  | .ident name =>
    if isReserved name then unexpected
    else return .keyValue key (.ident name (← freshId) span) true span
  | _ => unexpected

/-- One property of an object literal. -/
def property : Parse Property := do
  let first ← peek
  if ← eat .dots then
    let value ← r.assignment
    return .spread value (← spanFrom first.span)
  match ← accessorKind with
  | some .getter =>
    let key ← r.propertyName
    let definition ← r.method .getter
    return .getter key definition (← spanFrom first.span)
  | some _ =>
    let key ← r.propertyName
    let definition ← r.method .setter
    return .setter key definition (← spanFrom first.span)
  | none =>
    if (← isModifier "async") || (← isPunct .star) then
      reject (.unsupported .asyncOrGeneratorMethods)
    let key ← r.propertyName
    if ← isPunct .openParen then
      let definition ← r.method .method
      return .method key definition (← spanFrom first.span)
    if ← eat .colon then
      let value ← r.assignment
      return .keyValue key value false (← spanFrom first.span)
    shorthand key first.span

/-- Properties in braces. -/
def objectLiteral : Parse Expr := do
  let start := (← advance).span
  let properties ← Parse.repeat (σ := List Property)
    (fun properties => do
      if ← isPunct .closeBrace then
        let _ ← advance
        return .inr properties.reverse
      let properties := (← r.property) :: properties
      if !(← isPunct .closeBrace) then
        let _ ← expect .comma
      return .inl properties)
    []
  return .object properties (← spanFrom start)

/-- The look-up call of recorded source is next: its name, a text and the parentheses. -/
def scopeLookup? : Parse (Option String) := do
  if (← peekAt 1).isPunct .openParen && (← peekAt 3).isPunct .closeParen then
    match (← peekAt 2).kind with
    | .text name => return some name
    | _ => return none
  else return none

/-- A word that stands for a value, a definition or a variable. -/
def wordRule (word : String) (span : Span) : Parse Expr := do
  if word = "true" ∨ word = "false" then
    let _ ← advance
    return .bool (word = "true") span
  else if word = "null" then
    let _ ← advance
    return .null span
  else if word = "this" then
    let _ ← advance
    return .this span
  else if word = "function" then
    let definition ← r.function .expression
    return .function definition definition.span
  else if word = "class" then
    let definition ← r.class false
    return .class definition definition.span
  else if isReserved word then unexpected
  else
    -- in any other form of call the name is that of a plain variable
    let lookup ← if word = scopeLookupName then scopeLookup? else pure none
    match lookup with
    | some name =>
      let _ ← advance
      let _ ← advance
      let _ ← advance
      let _ ← advance
      return .scopeLookup name (← spanFrom span)
    | none =>
      let _ ← advance
      return .ident word (← freshId) span

/-- An operand without members and calls. -/
def primaryRule : Parse Expr := do
  let token ← peek
  match token.kind with
  | .number value =>
    let _ ← advance
    return .number value token.span
  | .bigint value =>
    let _ ← advance
    return .bigint value token.span
  | .text value =>
    let _ ← advance
    return .text value token.span
  | .punct .openParen =>
    let _ ← advance
    -- the parentheses leave no node, so the span of the operand stops inside of them
    let inner ← r.expression
    let _ ← expect .closeParen
    return inner
  | .punct .openBracket => r.arrayLiteral
  | .punct .openBrace => r.objectLiteral
  | .ident word => r.wordRule word token.span
  | _ => unexpected

/-- `new callee(arguments)`, where the callee has members but no calls. -/
def newRule : Parse Expr := do
  let start := (← advance).span
  let first ← if ← isWord "new" then r.new else r.primaryRule
  let callee ← Parse.repeat (σ := Expr)
    (fun callee => do
      if ← isAccess then return .inl (← r.memberOf callee) else return .inr callee)
    first
  -- the first parentheses behind the callee hold the arguments of this new
  let arguments ← if ← isPunct .openParen then r.arguments else pure []
  return .new callee arguments (← spanFrom start)

/-- `super(arguments)` or a member of `super`. -/
def superRule : Parse Expr := do
  let start := (← advance).span
  if ← isPunct .openParen then
    let arguments ← r.arguments
    return .superCall arguments (← spanFrom start)
  let access ← r.access
  return .superMember access (← spanFrom start)

/-- An operand with its members and calls. -/
def leftHandSideRule : Parse Expr := do
  let first ←
    if ← isWord "new" then r.newRule
    else if ← isWord "super" then superRule r
    else r.primaryRule
  Parse.repeat (σ := Expr)
    (fun operand => do
      if ← isAccess then return .inl (← r.memberOf operand)
      if ← isPunct .openParen then
        let arguments ← r.arguments
        return .inl (.call operand arguments (← spanFrom operand.span))
      return .inr operand)
    first

/-- An operand with a stepping operator behind it, in the same line. -/
def steppedRule : Parse Expr := do
  let target ← r.leftHandSideRule
  let next ← peek
  match updateOperator? next with
  | some op =>
    -- behind a line break the operator begins the next statement
    if next.newlineBefore then return target
    if !target.isAssignable then reject .badUpdateTarget
    let _ ← advance
    return .update op false target (← spanFrom target.span)
  | none => return target

/-- An operand with the operators before it. -/
def unaryRule : Parse Expr := do
  let token ← peek
  match unaryOperator? token with
  | some op =>
    let _ ← advance
    let operand ← r.unary
    return .unary op operand (token.span.to operand.span)
  | none =>
    match updateOperator? token with
    | some op =>
      let _ ← advance
      let target ← r.unary
      if !target.isAssignable then reject .badUpdateTarget
      return .update op true target (token.span.to target.span)
    | none => r.steppedRule

/-- The least precedence of operators in the right operand: repeated powers group to the right,
all else to the left. -/
def rightPrecedence (precedence : Nat) (op : InfixOp) : Nat :=
  if op = .binary .exp then precedence else precedence + 1

/-- Operands joined by operators of at least the given precedence. -/
def binaryRule (least : Nat) : Parse Expr := do
  let first ← r.unaryRule
  Parse.repeat (σ := Expr)
    (fun left => do
      match binaryOperator? (← peek) with
      | none => return .inr left
      | some (precedence, op) =>
        if precedence < least then return .inr left
        let _ ← advance
        let right ← r.binary (rightPrecedence precedence op)
        return .inl (op.apply left right))
    first

/-- `test ? consequent : alternate`, or the test alone. -/
def conditionalRule : Parse Expr := do
  let test ← r.binaryRule 0
  if ← eat .question then
    let consequent ← r.assignment
    let _ ← expect .colon
    let alternate ← r.assignment
    return .conditional test consequent alternate (test.span.to alternate.span)
  else return test

/-- An arrow function is next. -/
def startsArrow (s : Stream) : Bool :=
  match s.peek.kind with
  | .ident name => !isReserved name && (s.peekAt 1).isPunct .arrow
  | .punct .openParen => arrowAhead 0 s.rest
  | _ => false

/-- An asynchronous function is next. -/
def startsAsync (s : Stream) : Bool :=
  let next := s.peekAt 1
  s.peek.isWord "async" && !next.newlineBefore
    && (next.isWord "function" || (next.isPunct .openParen && arrowAhead 0 s.rest.tail)
      || (next.isIdent && (s.peekAt 2).isPunct .arrow))

/-- An arrow, an assignment or a conditional. -/
def assignmentRule : Parse Expr := do
  let s ← get
  if startsArrow s then r.arrow
  else if startsAsync s then reject (.unsupported .asyncFunctions)
  else
    let target ← r.conditionalRule
    match assignOperator? (← peek) with
    | none => return target
    | some op =>
      if !target.isAssignable then reject .badAssignmentTarget
      let _ ← advance
      let value ← r.assignment
      return .assign op target value (target.span.to value.span)

end Rules

end Stasis.Script
