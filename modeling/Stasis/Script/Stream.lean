import Stasis.Script.Lexer
import Stasis.Script.Tree

/-!
# Reading a stream of tokens

A reader of tokens sees the tokens that are left and remembers where the last one it took ended.

* `Parse`: a reader that may reject the stream.
* `Parse.expect`, `Parse.eat`: marks that have to stand next, or may.
* `Parse.repeat`: rounds that each take a token, until one answers.
-/

namespace Stasis.Script

/-- What is left of a script, with the place of the token taken last and the next free number. -/
structure Stream where
  rest : List Token
  stop : Token
  last : Span
  nextId : NodeId

/-- A reader of tokens. -/
abbrev Parse := StateT Stream (Except Rejection)

/-- The token `n` places on; behind the last one stands the end. -/
def Stream.peekAt (s : Stream) (n : Nat) : Token :=
  s.rest.getD n s.stop

/-- The next token. -/
def Stream.peek (s : Stream) : Token :=
  s.peekAt 0

/-- The stream behind the next token. -/
def Stream.tail (s : Stream) : Stream :=
  { s with rest := s.rest.tail, last := s.peek.span }

/-- The token is this mark. -/
def Token.isPunct (t : Token) (m : Punctuator) : Bool :=
  match t.kind with
  | .punct q => q == m
  | _ => false

/-- The token is this name. -/
def Token.isWord (t : Token) (name : String) : Bool :=
  match t.kind with
  | .ident s => s == name
  | _ => false

/-- The token is some name. -/
def Token.isIdent (t : Token) : Bool :=
  match t.kind with
  | .ident _ => true
  | _ => false

/-- The token is the end. -/
def Token.isEof (t : Token) : Bool :=
  match t.kind with
  | .eof => true
  | _ => false

namespace Parse

/-- The next token. -/
def peek : Parse Token := return (← get).peek

/-- The token `n` places on. -/
def peekAt (n : Nat) : Parse Token := return (← get).peekAt n

/-- The next token is this mark. -/
def isPunct (m : Punctuator) : Parse Bool := return (← get).peek.isPunct m

/-- The next token is this name. -/
def isWord (name : String) : Parse Bool := return (← get).peek.isWord name

/-- No token is left. -/
def atEof : Parse Bool := return (← get).peek.isEof

/-- Takes the next token. -/
def advance : Parse Token := do
  let s ← get
  set s.tail
  return s.peek

/-- A number not used before. -/
def freshId : Parse NodeId :=
  modifyGet fun s => (s.nextId, { s with nextId := s.nextId + 1 })

/-- From the start of a span to the end of the token taken last. -/
def spanFrom (start : Span) : Parse Span :=
  return start.to (← get).last

/-- Rejects the stream at its next token. -/
def reject {α : Type} (fault : Fault) : Parse α := do
  throw ⟨fault, some (← get).peek.span⟩

/-- Rejects the next token. -/
def unexpected {α : Type} : Parse α := do
  reject (.unexpected (← get).peek.kind)

/-- Takes the mark if it stands next. -/
def eat (m : Punctuator) : Parse Bool := do
  if ← isPunct m then
    let _ ← advance
    return true
  else return false

/-- Takes the name if it stands next. -/
def eatWord (name : String) : Parse Bool := do
  if ← isWord name then
    let _ ← advance
    return true
  else return false

/-- Takes the mark, which has to stand next. -/
def expect (m : Punctuator) : Parse Token := do
  if ← isPunct m then advance else reject (.expected m.text (← get).peek.kind)

/-- Takes the name, which has to stand next. -/
def expectWord (name : String) : Parse Token := do
  if ← isWord name then advance else reject (.expected name (← get).peek.kind)

/-- A statement ends with `;`, before a closing brace, at the end, or before a line break. -/
def endStatement : Parse Unit := do
  if ← eat .semicolon then return ()
  let next ← peek
  if next.isPunct .closeBrace || next.isEof || next.newlineBefore then return ()
  unexpected

/-- Repeats `round` until it answers `.inr`, for at most `steps` rounds. -/
def rounds {σ α : Type} (round : σ → Parse (σ ⊕ α)) : Nat → σ → Parse α
  | 0, _ => unexpected
  | steps + 1, s => do
    match ← round s with
    | .inl next => rounds round steps next
    | .inr answer => return answer

/-- Repeats `round` until it answers `.inr`. A round that does not answer takes a token, so as
many rounds as there are tokens, and one more, suffice. -/
def «repeat» {σ α : Type} (round : σ → Parse (σ ⊕ α)) (start : σ) : Parse α := do
  rounds round ((← get).rest.length + 1) start

end Parse

/-- Words that cannot be names of variables. -/
def reservedWords : List String :=
  ["break", "case", "catch", "class", "const", "continue", "debugger", "default", "delete", "do",
   "else", "export", "extends", "false", "finally", "for", "function", "if", "import", "in",
   "instanceof", "new", "null", "return", "super", "switch", "this", "throw", "true", "try",
   "typeof", "var", "void", "while", "with", "yield"]

/-- The word cannot name a variable. -/
def isReserved (name : String) : Bool :=
  reservedWords.contains name

/-- Reads a name that is being declared. -/
def Parse.binding : Parse Binding := do
  let token ← peek
  match token.kind with
  | .ident name =>
    if isReserved name then unexpected
    else
      let _ ← advance
      return ⟨name, token.span, ← freshId⟩
  | .punct .hash => reject (.unsupported .privateNames)
  | _ => unexpected

end Stasis.Script
