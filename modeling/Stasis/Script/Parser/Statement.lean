import Stasis.Script.Parser.Expression

/-!
# Statements

* `Rules.statementRule`: any statement, by its first token.
-/

namespace Stasis.Script

open Parse

namespace Rules

variable (r : Rules)

/-- The kind that a keyword declares. -/
def variableKind (keyword : Token) : VariableKind :=
  if keyword.isWord "var" then .var else if keyword.isWord "let" then .let else .const

/-- The variables of a declaration, up to where it may end. -/
def declaration : Parse VariableDecl := do
  let keyword ← advance
  let declarators ← Parse.repeat (σ := List Declarator)
    (fun declarators => do
      if (← isPunct .openBracket) || (← isPunct .openBrace) then
        reject (.unsupported .destructuringDeclarations)
      let name ← binding
      let value ← r.optionalValue
      let declarators := ⟨name, value⟩ :: declarators
      if ← eat .comma then return .inl declarators else return .inr declarators.reverse)
    []
  return ⟨variableKind keyword, declarators, keyword.span⟩

/-- A declaration with its end. -/
def declarationStatement : Parse Statement := do
  let decl ← r.declaration
  endStatement
  return .declaration { decl with span := ← spanFrom decl.span }

/-- An expression in parentheses. -/
def condition : Parse Expr := do
  let _ ← expect .openParen
  let test ← r.expression
  let _ ← expect .closeParen
  return test

/-- `if (test) consequent else alternate`. -/
def ifStatement : Parse Statement := do
  let start := (← advance).span
  let test ← r.condition
  let consequent ← r.statement
  let alternate ← if ← eatWord "else" then pure (some (← r.statement)) else pure none
  return .cond test consequent alternate (← spanFrom start)

/-- `while (test) body`. -/
def whileStatement : Parse Statement := do
  let start := (← advance).span
  let test ← r.condition
  let body ← r.statement
  return .while test body (← spanFrom start)

/-- What stands before the first `;` of a `for`. -/
def forInit : Parse (Option ForInit) := do
  let next ← peek
  if next.isPunct .semicolon then return none
  if next.isWord "var" || next.isWord "let" || next.isWord "const" then
    let decl ← r.declaration
    return some (.declaration { decl with span := ← spanFrom decl.span })
  return some (.expr (← r.expression))

/-- An expression unless the mark is next. -/
def expressionUnless (m : Punctuator) : Parse (Option Expr) := do
  if ← isPunct m then return none else return some (← r.expression)

/-- `for (start; test; update) body`. -/
def forStatement : Parse Statement := do
  let start := (← advance).span
  let _ ← expect .openParen
  let first ← r.forInit
  -- behind an expression, the word in has already been read as an operator
  if (← isWord "of") || (← isWord "in") then reject (.unsupported .forInOf)
  let _ ← expect .semicolon
  let test ← r.expressionUnless .semicolon
  let _ ← expect .semicolon
  let update ← r.expressionUnless .closeParen
  let _ ← expect .closeParen
  let body ← r.statement
  return .for first test update body (← spanFrom start) (← freshId)

/-- The `catch` part of a `try`. -/
def catchClause : Parse (Option CatchClause) := do
  if ← eatWord "catch" then
    let param ← (do
      if ← eat .openParen then
        let name ← binding
        let _ ← expect .closeParen
        return some name
      else return none)
    let body ← r.block
    return some ⟨param, body, ← freshId⟩
  else return none

/-- `try block catch (param) block finally block`. -/
def tryStatement : Parse Statement := do
  let start := (← advance).span
  let block ← r.block
  let handler ← r.catchClause
  let finalizer ← if ← eatWord "finally" then pure (some (← r.block)) else pure none
  -- what stands behind the block is rejected
  if handler.isNone && finalizer.isNone then reject .loneTry
  return .try block handler finalizer (← spanFrom start)

/-- `return value`, where the value begins in the same line. -/
def returnStatement : Parse Statement := do
  let start := (← advance).span
  let next ← peek
  let value ←
    if next.isPunct .semicolon || next.isPunct .closeBrace || next.isEof || next.newlineBefore then
      pure none
    else pure (some (← r.expression))
  endStatement
  return .ret value (← spanFrom start)

/-- `throw value`, where the value begins in the same line. -/
def throwStatement : Parse Statement := do
  let start := (← advance).span
  if (← peek).newlineBefore then unexpected
  let value ← r.expression
  endStatement
  return .throw value (← spanFrom start)

/-- An expression as a statement. -/
def expressionStatement : Parse Statement := do
  let value ← r.expression
  endStatement
  return .expr value (← spanFrom value.span)

/-- `let` begins a declaration if a name or a pattern follows it. -/
def startsLet (next : Token) : Bool :=
  next.isIdent || next.isPunct .openBracket || next.isPunct .openBrace

/-- A statement that begins with a word. -/
def wordStatement (word : String) : Parse Statement := do
  let next ← peekAt 1
  match word with
  | "var" | "const" => r.declarationStatement
  | "let" => if startsLet next then r.declarationStatement else r.expressionStatement
  | "function" => return .function (← r.function .declaration)
  | "async" =>
    if next.isWord "function" && !next.newlineBefore then
      reject (.unsupported .asyncFunctions)
    else r.expressionStatement
  | "class" => return .class (← r.class true)
  | "if" => r.ifStatement
  | "while" => r.whileStatement
  | "for" => r.forStatement
  | "return" => r.returnStatement
  | "throw" => r.throwStatement
  | "try" => r.tryStatement
  | "break" =>
    let start := (← advance).span
    endStatement
    return .break (← spanFrom start)
  | "continue" =>
    let start := (← advance).span
    endStatement
    return .continue (← spanFrom start)
  | "import" | "export" | "switch" | "do" | "with" => reject (.unsupported (.statements word))
  | _ => r.expressionStatement

/-- Any statement, by its first token. -/
def statementRule : Parse Statement := do
  let token ← peek
  match token.kind with
  | .punct .openBrace => return .block (← r.block)
  | .punct .semicolon =>
    let _ ← advance
    return .empty token.span
  | .ident word => r.wordStatement word
  | _ => r.expressionStatement

end Rules

end Stasis.Script
