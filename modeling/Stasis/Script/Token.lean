import Stasis.Number.Layout
import Stasis.Script.Span

/-!
# Tokens of a script

* `Punctuator`: the marks, with `Punctuator.text`; `Punctuator.all` lists them so that a mark
  stands before every mark it begins with.
* `TokenKind`: names (keywords included), numbers, texts, marks and the end of the script.
-/

namespace Stasis.Script

/-- The marks of the script language. -/
inductive Punctuator where
  | strictEq | strictNotEq | powAssign | dots | andAssign | orAssign | nullishAssign
  | arrow | eq | notEq | ltEq | gtEq | and | or | nullish | increment | decrement
  | addAssign | subAssign | mulAssign | divAssign | remAssign | pow
  | openBrace | closeBrace | openParen | closeParen | openBracket | closeBracket
  | semicolon | comma | lt | gt | plus | minus | star | slash | percent
  | not | tilde | question | colon | assign | dot | bitAnd | bitOr | bitXor | hash
deriving DecidableEq, Repr

/-- How a mark is written. -/
def Punctuator.text : Punctuator → String
  | strictEq => "==="
  | strictNotEq => "!=="
  | powAssign => "**="
  | dots => "..."
  | andAssign => "&&="
  | orAssign => "||="
  | nullishAssign => "??="
  | arrow => "=>"
  | eq => "=="
  | notEq => "!="
  | ltEq => "<="
  | gtEq => ">="
  | and => "&&"
  | or => "||"
  | nullish => "??"
  | increment => "++"
  | decrement => "--"
  | addAssign => "+="
  | subAssign => "-="
  | mulAssign => "*="
  | divAssign => "/="
  | remAssign => "%="
  | pow => "**"
  | openBrace => "\x7b"
  | closeBrace => "\x7d"
  | openParen => "("
  | closeParen => ")"
  | openBracket => "["
  | closeBracket => "]"
  | semicolon => ";"
  | comma => ","
  | lt => "<"
  | gt => ">"
  | plus => "+"
  | minus => "-"
  | star => "*"
  | slash => "/"
  | percent => "%"
  | not => "!"
  | tilde => "~"
  | question => "?"
  | colon => ":"
  | assign => "="
  | dot => "."
  | bitAnd => "&"
  | bitOr => "|"
  | bitXor => "^"
  | hash => "#"

/-- Every mark, longest first. -/
def Punctuator.all : List Punctuator :=
  [strictEq, strictNotEq, powAssign, dots, andAssign, orAssign, nullishAssign,
   arrow, eq, notEq, ltEq, gtEq, and, or, nullish, increment, decrement,
   addAssign, subAssign, mulAssign, divAssign, remAssign, pow,
   openBrace, closeBrace, openParen, closeParen, openBracket, closeBracket,
   semicolon, comma, lt, gt, plus, minus, star, slash, percent,
   not, tilde, question, colon, assign, dot, bitAnd, bitOr, bitXor, hash]

theorem Punctuator.mem_all (p : Punctuator) : p ∈ Punctuator.all := by
  cases p <;> decide

/-- What a token is. Names include the keywords. -/
inductive TokenKind where
  | ident (name : String)
  | number (value : Float)
  | bigint (value : Int)
  | text (value : String)
  | punct (mark : Punctuator)
  | eof
deriving Repr

/-- A token in messages. -/
def TokenKind.describe : TokenKind → String
  | .ident name => "`" ++ name ++ "`"
  | .number n => "number " ++ Number.messageText n
  | .bigint n => "bigint " ++ Number.integerText n ++ "n"
  | .text _ => "string literal"
  | .punct p => "`" ++ p.text ++ "`"
  | .eof => "end of input"

/-- A token with its place. -/
structure Token where
  kind : TokenKind
  span : Span
  /-- A line feed stands between the token before and this one. -/
  newlineBefore : Bool
deriving Repr

end Stasis.Script
