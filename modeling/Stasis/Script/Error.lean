import Stasis.Script.Token

/-!
# Why a script is rejected

* `Fault`: the causes, with their class `Fault.code` and wording `Fault.message`.
* `SourceError`: a cause at a place of a named source, and its text `SourceError.describe`.
-/

namespace Stasis.Script

/-- The classes of faults. -/
inductive FaultCode where
  | emptySource
  | unexpectedToken
  | unexpectedEof
  | unsupportedSyntax
  | invalidAssignmentTarget
  | invalidNumber
  | invalidEscape
  | unterminatedString
  | unterminatedComment
  | ioReadFailed
deriving DecidableEq, Repr

/-- The stable code of a class. -/
def FaultCode.stable : FaultCode → String
  | emptySource => "FE-PARSE-0001"
  | unexpectedToken => "FE-PARSE-0002"
  | unexpectedEof => "FE-PARSE-0003"
  | unsupportedSyntax => "FE-PARSE-0004"
  | invalidAssignmentTarget => "FE-PARSE-0005"
  | invalidNumber => "FE-PARSE-0006"
  | invalidEscape => "FE-PARSE-0007"
  | unterminatedString => "FE-PARSE-0008"
  | unterminatedComment => "FE-PARSE-0009"
  | ioReadFailed => "FE-PARSE-0010"

/-- The name of a class in messages. -/
def FaultCode.name : FaultCode → String
  | emptySource => "EmptySource"
  | unexpectedToken => "UnexpectedToken"
  | unexpectedEof => "UnexpectedEof"
  | unsupportedSyntax => "UnsupportedSyntax"
  | invalidAssignmentTarget => "InvalidAssignmentTarget"
  | invalidNumber => "InvalidNumber"
  | invalidEscape => "InvalidEscape"
  | unterminatedString => "UnterminatedString"
  | unterminatedComment => "UnterminatedComment"
  | ioReadFailed => "IoReadFailed"

/-- Constructs of larger script languages that this one leaves out. -/
inductive Feature where
  | templateLiterals
  | privateNames
  | statements (keyword : String)
  | destructuringDeclarations
  | destructuringParameters
  | forInOf
  | asyncFunctions
  | asyncMethods
  | generatorFunctions
  | generatorMethods
  | asyncOrGeneratorMethods
deriving DecidableEq, Repr

/-- The plural noun of a construct. -/
def Feature.name : Feature → String
  | templateLiterals => "template literals"
  | privateNames => "private names"
  | statements keyword => "`" ++ keyword ++ "` statements"
  | destructuringDeclarations => "destructuring declarations"
  | destructuringParameters => "destructuring parameters"
  | forInOf => "for-in and for-of loops"
  | asyncFunctions => "async functions"
  | asyncMethods => "async methods"
  | generatorFunctions => "generator functions"
  | generatorMethods => "generator methods"
  | asyncOrGeneratorMethods => "async and generator methods"

/-- Why a script is rejected. -/
inductive Fault where
  | openComment
  | strayCharacter (c : Char)
  | malformedNumber
  | bigintOutOfRange
  | nameAfterNumber
  | openText
  | newlineInText
  | malformedEscape
  | truncatedEscape
  | escapeNotHex
  | unsupported (feature : Feature)
  | emptySource
  | unexpected (found : TokenKind)
  | expected (wanted : String) (found : TokenKind)
  | badAssignmentTarget
  | badUpdateTarget
  | loneTry
  | secondConstructor
  | unreadable (reason : String)

/-- A fault at the end of the script has a class of its own. -/
def TokenKind.faultCode : TokenKind → FaultCode
  | .eof => .unexpectedEof
  | _ => .unexpectedToken

/-- The class of a fault. -/
def Fault.code : Fault → FaultCode
  | openComment => .unterminatedComment
  | strayCharacter _ => .unexpectedToken
  | malformedNumber | bigintOutOfRange | nameAfterNumber => .invalidNumber
  | openText | newlineInText => .unterminatedString
  | malformedEscape | truncatedEscape | escapeNotHex => .invalidEscape
  | unsupported _ => .unsupportedSyntax
  | emptySource => .emptySource
  | unexpected found | expected _ found => found.faultCode
  | badAssignmentTarget | badUpdateTarget => .invalidAssignmentTarget
  | loneTry | secondConstructor => .unexpectedToken
  | unreadable _ => .ioReadFailed

/-- The wording of a fault. -/
def Fault.message : Fault → String
  | openComment => "unterminated block comment"
  | strayCharacter c => "unexpected character `" ++ c.toString ++ "`"
  | malformedNumber => "invalid numeric literal"
  | bigintOutOfRange => "bigint literal out of range"
  | nameAfterNumber => "identifier directly after number"
  | openText => "unterminated string literal"
  | newlineInText => "newline in string literal"
  | malformedEscape => "malformed unicode escape"
  | truncatedEscape => "truncated escape sequence"
  | escapeNotHex => "invalid hex escape"
  | unsupported feature => feature.name ++ " are not supported"
  | emptySource => "expected an expression"
  | unexpected found => "unexpected " ++ found.describe
  | expected wanted found => "expected `" ++ wanted ++ "`, found " ++ found.describe
  | badAssignmentTarget => "invalid assignment target"
  | badUpdateTarget => "invalid update target"
  | loneTry => "`try` needs `catch` or `finally`"
  | secondConstructor => "a class may only have one constructor"
  | unreadable reason => "failed to read source: " ++ reason

/-- A fault with its place, before the source is named. -/
structure Rejection where
  fault : Fault
  span : Option Span

/-- A fault at a place of a named source. -/
structure SourceError where
  fault : Fault
  label : String
  span : Option Span

/-- Names the source of a rejection. -/
def Rejection.inSource (r : Rejection) (label : String) : SourceError :=
  ⟨r.fault, label, r.span⟩

/-- The stable code of an error. -/
def SourceError.code (e : SourceError) : String :=
  e.fault.code.stable

/-- The text of an error, with line and column where they are known. -/
def SourceError.describe (e : SourceError) : String :=
  let place := match e.span with
    | some span => ", line=" ++ toString span.line ++ ", column=" ++ toString span.column
    | none => ""
  e.fault.code.name ++ ": " ++ e.fault.message ++ " (source=" ++ e.label ++ place ++ ")"

end Stasis.Script
