import Stasis.Number.Arithmetic
import Stasis.Number.Reader
import Stasis.Script.Error
import Stasis.Text.Alphabetic
import Stasis.Text.Blank
import Stasis.Text.Bytes
import Stasis.Text.Numeric

/-!
# From characters to tokens

A script is read as a list of characters together with a `Position`. Every reader returns what
is left of the list, so a token's lexeme is what the list has lost.

* `skipGap`: white space and comments between two tokens.
* `readEscape`: one escape of a quoted text, as its width and the character it denotes.
* `readText`, `readNumber`: quoted texts and numbers.
* `tokenize`: the tokens of a script, the last of them the end.
-/

namespace Stasis.Script

open Stasis.Text

/-- A name begins with a letter, `_` or `$`. -/
def isNameStart (c : Char) : Bool :=
  c == '_' || c == '$' || isAlphabetic c

/-- A name goes on with letters, digits, numerals, `_` and `$`. -/
def isNamePart (c : Char) : Bool :=
  isNameStart c || isNumeric c

/-- What a reader leaves: the rest of the script and its position. -/
structure Rest where
  chars : List Char
  position : Position

/-- Where in a gap a reader is. -/
inductive GapState where
  | between
  | lineComment
  | blockComment (start : Nat)

/-- Skips white space and comments; the answer tells whether a line feed was among them. -/
def skipGap : GapState → Bool → Position → List Char → Except Rejection (Rest × Bool)
  | .between, _, p, '\n' :: cs => skipGap .between true (p.step '\n') cs
  | .between, nl, p, '/' :: '/' :: cs =>
    skipGap .lineComment nl ((p.step '/').step '/') cs
  | .between, nl, p, '/' :: '*' :: cs =>
    skipGap (.blockComment p.offset) nl ((p.step '/').step '*') cs
  | .between, nl, p, c :: cs =>
    if isBlank c then skipGap .between nl (p.step c) cs else .ok (⟨c :: cs, p⟩, nl)
  | .between, nl, p, [] => .ok (⟨[], p⟩, nl)
  | .lineComment, _, p, '\n' :: cs => skipGap .between true (p.step '\n') cs
  | .lineComment, nl, p, c :: cs => skipGap .lineComment nl (p.step c) cs
  | .lineComment, nl, p, [] => .ok (⟨[], p⟩, nl)
  | .blockComment _, nl, p, '*' :: '/' :: cs => skipGap .between nl ((p.step '*').step '/') cs
  | .blockComment start, nl, p, c :: cs =>
    skipGap (.blockComment start) (nl || c == '\n') (p.step c) cs
  | .blockComment start, _, p, [] => .error ⟨.openComment, some (p.pointAt start)⟩

/-- One escape, without its backslash: how many characters it has, and the character it denotes,
if any. -/
structure Escape where
  width : Nat
  denotes : Option Char

/-- The character of a code; U+FFFD stands for codes that have none. -/
def charOfCode (code : Nat) : Char :=
  if code.isValidChar then Char.ofNat code else Char.ofNat 0xFFFD

/-- The value of the next `count` bytes as a hexadecimal number. -/
def readHex (count : Nat) (cs : List Char) : Except Fault Nat :=
  match takeBytes? count cs with
  | none => .error .truncatedEscape
  | some ds =>
    match Number.readNatural 16 0xFFFFFFFF ds with
    | none => .error .escapeNotHex
    | some n => .ok n

/-- The code of a high and a low surrogate together. -/
def joinSurrogates (high low : Nat) : Nat :=
  0x10000 + (high - 0xD800) * 0x400 + (low - 0xDC00)

/-- The escape that follows `\u`: braces around a code, four digits, or two escapes of four digits
for a surrogate pair. -/
def readUnicodeEscape (cs : List Char) : Except Fault (Nat × Nat) :=
  match cs with
  | '\x7b' :: rest =>
    let ds := rest.takeWhile fun c => c.isDigit || ('a' ≤ c && c ≤ 'f') || ('A' ≤ c && c ≤ 'F')
    match rest.drop ds.length with
    | '\x7d' :: _ =>
      match Number.readNatural 16 0xFFFFFFFF ds with
      | some code => .ok (ds.length + 2, code)
      | none => .error .malformedEscape
    | _ => .error .malformedEscape
  | _ => do
    let high ← readHex 4 cs
    if 0xD800 ≤ high ∧ high < 0xDC00 then
      match cs.drop 4 with
      | '\\' :: 'u' :: rest =>
        let low ← readHex 4 rest
        -- the second escape belongs to this one only if it completes the pair
        if 0xDC00 ≤ low ∧ low < 0xE000 then return (10, joinSurrogates high low)
        else return (4, high)
      | _ => return (4, high)
    else return (4, high)

/-- The escape at the front of a list that begins behind a backslash. -/
def readEscape : List Char → Except Fault Escape
  | [] => .error .openText
  | 'n' :: _ => .ok ⟨1, some '\n'⟩
  | 't' :: _ => .ok ⟨1, some '\t'⟩
  | 'r' :: _ => .ok ⟨1, some '\r'⟩
  | 'b' :: _ => .ok ⟨1, some '\x08'⟩
  | 'f' :: _ => .ok ⟨1, some '\x0c'⟩
  | 'v' :: _ => .ok ⟨1, some '\x0b'⟩
  | '0' :: _ => .ok ⟨1, some '\x00'⟩
  | '\n' :: _ => .ok ⟨1, none⟩
  | 'x' :: cs => do
    let code ← readHex 2 cs
    return ⟨3, some (charOfCode code)⟩
  | 'u' :: cs => do
    let (width, code) ← readUnicodeEscape cs
    return ⟨width + 1, some (charOfCode code)⟩
  | c :: _ => .ok ⟨1, some c⟩

/-- Reads a quoted text behind its opening quote. Faults are placed at `start`, in the line where
they are found. -/
def readText (quote : Char) (start : Nat) (acc : List Char) (p : Position) :
    List Char → Except Rejection (String × Rest)
  | [] => .error ⟨.openText, some (p.pointAt start)⟩
  | c :: cs =>
    if c = quote then .ok (String.ofList acc.reverse, ⟨cs, p.step c⟩)
    -- a line feed behind a backslash is part of an escape and does not come here
    else if c = '\n' then .error ⟨.newlineInText, some (p.pointAt start)⟩
    else if c = '\\' then
      match readEscape cs with
      | .error fault => .error ⟨fault, some ((p.step c).pointAt start)⟩
      | .ok e =>
        readText quote start (e.denotes.toList ++ acc) ((p.step c).advance (cs.take e.width))
          (cs.drop e.width)
    else readText quote start (c :: acc) (p.step c) cs
termination_by cs => cs.length
decreasing_by all_goals simp [List.length_drop]; try omega

/-- The base that a number's first two characters announce. -/
def announcedBase : List Char → Nat
  | '0' :: c :: _ =>
    if c = 'x' ∨ c = 'X' then 16
    else if c = 'o' ∨ c = 'O' then 8
    else if c = 'b' ∨ c = 'B' then 2
    else 10
  | _ => 10

/-- The characters of an exponent, if one is complete. -/
def exponentLexeme : List Char → List Char
  | [] => []
  | c :: cs =>
    if c = 'e' ∨ c = 'E' then
      let sign := cs.take (if cs.head? = some '+' ∨ cs.head? = some '-' then 1 else 0)
      let ds := (cs.drop sign.length).takeWhile Char.isDigit
      if ds.isEmpty then [] else c :: (sign ++ ds)
    else []

/-- The fraction of a number with its point. -/
def fractionLexeme : List Char → List Char
  | '.' :: cs => '.' :: cs.takeWhile Char.isDigit
  | _ => []

/-- Reads a number: in the base that it announces, as a big integer with the suffix `n`, or as a
double. -/
def readNumber (p : Position) (cs : List Char) : Except Rejection (TokenKind × Rest) :=
  let here (fault : Fault) : Rejection := ⟨fault, some (p.pointAt p.offset)⟩
  let base := announcedBase cs
  if base ≠ 10 then
    let body := (cs.drop 2).takeWhile Char.isAlphanum
    let rest : Rest := ⟨cs.drop (2 + body.length), p.advance (cs.take (2 + body.length))⟩
    -- n is no digit in any of these bases
    let big := body.getLast? = some 'n'
    let ds := if big then body.dropLast else body
    match Number.readInteger base Number.minWide Number.maxWide ds with
    | none => .error (here .malformedNumber)
    | some n => .ok (if big then .bigint n else .number (Number.ofInt n), rest)
  else
    let whole := cs.takeWhile Char.isDigit
    let afterWhole := cs.drop whole.length
    if afterWhole.head? = some 'n' then
      match Number.readInteger 10 Number.minWide Number.maxWide whole with
      | none => .error (here .bigintOutOfRange)
      | some n =>
        .ok (.bigint n, ⟨afterWhole.drop 1, p.advance (cs.take (whole.length + 1))⟩)
    else
      let fraction := fractionLexeme afterWhole
      let exponent := exponentLexeme (afterWhole.drop fraction.length)
      let lexeme := whole ++ fraction ++ exponent
      let rest : Rest := ⟨cs.drop lexeme.length, p.advance lexeme⟩
      match Number.readDouble lexeme with
      | none => .error (here .malformedNumber)
      | some x =>
        if rest.chars.head?.any isNameStart then
          .error ⟨.nameAfterNumber, some (p.pointAt rest.position.offset)⟩
        else .ok (.number x, rest)

/-- The longest mark at the front of a list. -/
def punctuatorAt? (cs : List Char) : Option Punctuator :=
  Punctuator.all.find? fun m => m.text.toList.isPrefixOf cs

/-- A number begins with a digit, or with a point before a digit. -/
def startsNumber : List Char → Bool
  | '.' :: d :: _ => d.isDigit
  | c :: _ => c.isDigit
  | [] => false

/-- Reads the token at the front of a non-empty list. -/
def readToken (p : Position) (c : Char) (cs : List Char) : Except Rejection (TokenKind × Rest) :=
  if isNameStart c then
    -- keywords are names too; the parser tells them apart
    let name := (c :: cs).takeWhile isNamePart
    .ok (.ident (String.ofList name), ⟨(c :: cs).drop name.length, p.advance name⟩)
  else if startsNumber (c :: cs) then readNumber p (c :: cs)
  else if c = '"' ∨ c = '\'' then do
    let (value, rest) ← readText c p.offset [] (p.step c) cs
    return (.text value, rest)
  else if c.toNat = 0x60 then .error ⟨.unsupported .templateLiterals, some (p.pointAt p.offset)⟩
  else
    match punctuatorAt? (c :: cs) with
    | some m =>
      let lexeme := m.text.toList
      .ok (.punct m, ⟨(c :: cs).drop lexeme.length, p.advance lexeme⟩)
    | none => .error ⟨.strayCharacter c, some (p.pointAt p.offset)⟩

/-- Reads tokens to the end. Every token takes a character at least, so as many steps as there
are characters, and one for the end, suffice. -/
def readTokens : Nat → List Token → Position → List Char → Except Rejection (List Token × Token)
  | 0, acc, p, _ => .ok (acc.reverse, ⟨.eof, p.spanTo p, false⟩)
  | steps + 1, acc, p, cs => do
    let (rest, newline) ← skipGap .between false p cs
    match rest.chars with
    | [] => return (acc.reverse, ⟨.eof, rest.position.spanTo rest.position, newline⟩)
    | c :: more => do
      let (kind, next) ← readToken rest.position c more
      readTokens steps (⟨kind, rest.position.spanTo next.position, newline⟩ :: acc) next.position
        next.chars

/-- The tokens of a script and, apart from them, its end. -/
def lex (source : String) : Except Rejection (List Token × Token) :=
  readTokens (source.length + 1) [] .first source.toList

/-- The tokens of a script, the last of them the end. -/
def tokenize (source label : String) : Except SourceError (List Token) :=
  match lex source with
  | .error r => .error (r.inSource label)
  | .ok (tokens, stop) => .ok (tokens ++ [stop])

end Stasis.Script
