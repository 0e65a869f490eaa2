import Stasis.Script.Parser.Statement

/-!
# Parsing

The rules of the grammar refer to each other through a record; `Rules.upTo n` ties them together
for trees whose nesting takes at most `n` of those references. Every reference but the one from a
statement to its expression comes after a token, so twice the number of tokens bounds the nesting.

* `parseScript`: a whole script.
* `parseExpression`: one expression and nothing else.
* `parseInput`: either of them, from a text at hand.
-/

namespace Stasis.Script

open Parse

/-- The rules for nesting up to a depth. At depth zero every token is rejected. -/
def Rules.upTo : Nat → Rules
  | 0 =>
    { statement := unexpected, assignment := unexpected, unary := unexpected,
      binary := fun _ => unexpected, leftHandSide := unexpected, new := unexpected }
  | n + 1 =>
    let r := Rules.upTo n
    { statement := r.statementRule, assignment := r.assignmentRule, unary := r.unaryRule,
      binary := r.binaryRule, leftHandSide := r.leftHandSideRule, new := r.newRule }

/-- Statements up to the end. -/
def Rules.program (r : Rules) : Parse Program := do
  let start := (← peek).span
  let body ← Parse.repeat (σ := List Statement)
    (fun body => do
      if ← atEof then return .inr body.reverse
      return .inl ((← r.statement) :: body))
    []
  let whole ← spanFrom start
  return ⟨body, if body.isEmpty then start else whole⟩

/-- An expression, possibly with a semicolon, up to the end. -/
def Rules.loneExpression (r : Rules) : Parse Expr := do
  if ← atEof then reject .emptySource
  let value ← r.expression
  let _ ← eat .semicolon
  if ← atEof then return value else unexpected

/-- Reads the tokens of a source by one of the rules. -/
def parseWith {α : Type} (rule : Rules → Parse α) (source label : String) :
    Except SourceError α :=
  let result := do
    let (tokens, stop) ← lex source
    let (value, _) ← (rule (Rules.upTo (2 * tokens.length + 2))).run ⟨tokens, stop, .none, 0⟩
    return value
  result.mapError (·.inSource label)

/-- Parses a whole script. -/
def parseScript (source label : String) : Except SourceError Program :=
  parseWith Rules.program source label

/-- Parses one expression. -/
def parseExpression (source label : String) : Except SourceError Expr :=
  parseWith Rules.loneExpression source label

/-- What a source is to be read as. -/
inductive Goal where
  | script
  | expression
deriving DecidableEq, Repr

/-- The label of a text that has no name. -/
def inlineLabel : String := "<inline>"

/-- Parses a text for a goal; an expression becomes a script of one statement. -/
def parseInput (goal : Goal) (source : String) : Except SourceError Program :=
  match goal with
  | .script => parseScript source inlineLabel
  | .expression => do
    let value ← parseExpression source inlineLabel
    return ⟨[.expr value value.span], value.span⟩

/-- The error for a source that cannot be read from its file. -/
def unreadableSource (path reason : String) : SourceError :=
  ⟨.unreadable reason, path, none⟩

end Stasis.Script
