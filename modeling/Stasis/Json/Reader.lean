import Stasis.Json.Number

/-!
# Reading interchange texts

Reading has two stages. The first finds the parts of a text and checks its grammar alone; the
second decodes numbers and escapes and limits the nesting. A reader of records passes over fields
that it does not know after the first stage.

* `Raw`: the parts of a text, not decoded.
* `scan`: the first stage.
* `Raw.decode`: the second stage.
* `Json.parse?`: both, for a text of its own.
-/

namespace Stasis

/-- The parts of an interchange text. Texts keep their escapes. -/
inductive Raw where
  | null
  | bool (value : Bool)
  | number (lexeme : NumberLexeme)
  | text (lexeme : List Char)
  | array (items : List Raw)
  | object (fields : List (List Char × Raw))

/-- Blanks of interchange texts. -/
def isJsonBlank (c : Char) : Bool :=
  c == ' ' || c == '\n' || c == '\t' || c == '\r'

/-- What follows the blanks. -/
def skipJsonBlanks (cs : List Char) : List Char := cs.dropWhile isJsonBlank

/-- A hexadecimal digit. -/
def isHexDigit (c : Char) : Bool :=
  c.isDigit || ('a' ≤ c && c ≤ 'f') || ('A' ≤ c && c ≤ 'F')

/-- The number of characters of the escape behind a backslash, if there is one. -/
def escapeWidth? : List Char → Option Nat
  | 'u' :: a :: b :: c :: d :: _ =>
    if isHexDigit a && isHexDigit b && isHexDigit c && isHexDigit d then some 5 else none
  | c :: _ => if ['"', '\\', '/', 'b', 'f', 'n', 'r', 't'].contains c then some 1 else none
  | [] => none

/-- Scans a text behind its opening quote, up to the closing one. -/
def scanText (acc : List Char) : List Char → Option (List Char × List Char)
  | [] => none
  | c :: cs =>
    if c = '"' then some (acc.reverse, cs)
    else if c = '\\' then
      match escapeWidth? cs with
      | none => none
      | some width => scanText ((cs.take width).reverse ++ c :: acc) (cs.drop width)
    else if c.toNat < 0x20 then none
    else scanText (c :: acc) cs
termination_by cs => cs.length
decreasing_by all_goals simp [List.length_drop]; try omega

/-- Scans digits, of which there has to be one. -/
def scanDigits? (cs : List Char) : Option (List Char × List Char) :=
  let ds := cs.takeWhile Char.isDigit
  if ds.isEmpty then none else some (ds, cs.drop ds.length)

/-- Scans the whole part of a number: zero alone, or digits that begin with another. -/
def scanWhole? (cs : List Char) : Option (List Char × List Char) := do
  let (ds, rest) ← scanDigits? cs
  if ds.length = 1 ∨ ds.head? ≠ some '0' then some (ds, rest) else none

/-- Scans the fraction of a number, if there is one. -/
def scanFraction? : List Char → Option (List Char × List Char)
  | '.' :: cs => scanDigits? cs
  | cs => some ([], cs)

/-- Scans the exponent of a number, if there is one. -/
def scanExponent? : List Char → Option (Option (Bool × List Char) × List Char)
  | [] => some (none, [])
  | c :: cs =>
    if c = 'e' ∨ c = 'E' then do
      let (negative, rest) := match cs with
        | '+' :: rest => (false, rest)
        | '-' :: rest => (true, rest)
        | _ => (false, cs)
      let (ds, rest) ← scanDigits? rest
      return (some (negative, ds), rest)
    else some (none, c :: cs)

/-- Scans a number. -/
def scanNumber? (cs : List Char) : Option (Raw × List Char) := do
  let (negative, cs) := match cs with
    | '-' :: rest => (true, rest)
    | _ => (false, cs)
  let (whole, cs) ← scanWhole? cs
  let (fraction, cs) ← scanFraction? cs
  let (exponent, cs) ← scanExponent? cs
  return (.number ⟨negative, whole, fraction, exponent⟩, cs)

/-- Scans a word. -/
def scanWord? (word : String) (value : Raw) (cs : List Char) : Option (Raw × List Char) :=
  if word.toList.isPrefixOf cs then some (value, cs.drop word.length) else none

mutual

/-- Scans a value; `steps` bounds the values and separators in it. -/
def scanValue? : Nat → List Char → Option (Raw × List Char)
  | 0, _ => none
  | steps + 1, cs =>
    match skipJsonBlanks cs with
    | 'n' :: rest => scanWord? "null" .null ('n' :: rest)
    | 't' :: rest => scanWord? "true" (.bool true) ('t' :: rest)
    | 'f' :: rest => scanWord? "false" (.bool false) ('f' :: rest)
    | '"' :: rest => (scanText [] rest).map fun (s, rest) => (.text s, rest)
    | '[' :: rest =>
      match skipJsonBlanks rest with
      | ']' :: rest => some (.array [], rest)
      | rest => (scanItems? steps rest).map fun (items, rest) => (.array items, rest)
    | '\x7b' :: rest =>
      match skipJsonBlanks rest with
      | '\x7d' :: rest => some (.object [], rest)
      | rest => (scanFields? steps rest).map fun (fields, rest) => (.object fields, rest)
    | rest => scanNumber? rest

/-- Scans items, of which there has to be one, and the closing bracket. -/
def scanItems? : Nat → List Char → Option (List Raw × List Char)
  | 0, _ => none
  | steps + 1, cs => do
    let (item, cs) ← scanValue? steps cs
    match skipJsonBlanks cs with
    | ',' :: rest =>
      let (items, rest) ← scanItems? steps rest
      some (item :: items, rest)
    | ']' :: rest => some ([item], rest)
    | _ => none

/-- Scans fields, of which there has to be one, and the closing brace. -/
def scanFields? : Nat → List Char → Option (List (List Char × Raw) × List Char)
  | 0, _ => none
  | steps + 1, cs => do
    let '"' :: cs := skipJsonBlanks cs | none
    let (name, cs) ← scanText [] cs
    let ':' :: cs := skipJsonBlanks cs | none
    let (value, cs) ← scanValue? steps cs
    match skipJsonBlanks cs with
    | ',' :: rest =>
      let (fields, rest) ← scanFields? steps rest
      some ((name, value) :: fields, rest)
    | '\x7d' :: rest => some ([(name, value)], rest)
    | _ => none

end

/-- Scans a whole text. Every value takes a character and every separator another one. -/
def scan? (s : String) : Option Raw := do
  let cs := s.toList
  let (value, rest) ← scanValue? (cs.length + 1) cs
  if (skipJsonBlanks rest).isEmpty then some value else none

/-- The character of a short escape. -/
def shortEscape (c : Char) : Char :=
  if c = 'b' then '\x08'
  else if c = 'f' then '\x0c'
  else if c = 'n' then '\n'
  else if c = 'r' then '\r'
  else if c = 't' then '\t'
  else c

/-- Decodes the escapes of a scanned text. A surrogate stands only in a pair. -/
def decodeText (acc : List Char) : List Char → Option String
  | [] => some (String.ofList acc.reverse)
  | '\\' :: 'u' :: a :: b :: c :: d :: rest =>
    match Number.digits? 16 [a, b, c, d] with
    | none => none
    | some code =>
      if 0xDC00 ≤ code ∧ code < 0xE000 then none
      else if 0xD800 ≤ code ∧ code < 0xDC00 then
        match rest with
        | '\\' :: 'u' :: a :: b :: c :: d :: rest =>
          match Number.digits? 16 [a, b, c, d] with
          | none => none
          | some low =>
            if 0xDC00 ≤ low ∧ low < 0xE000 then
              let joined := 0x10000 + (code - 0xD800) * 0x400 + (low - 0xDC00)
              decodeText (Char.ofNat joined :: acc) rest
            else none
        | _ => none
      else decodeText (Char.ofNat code :: acc) rest
  | '\\' :: c :: rest => decodeText (shortEscape c :: acc) rest
  | c :: rest => decodeText (c :: acc) rest

/-- Containers may be nested this deep. -/
def nestingLimit : Nat := 127

mutual

/-- Decodes a value inside `depth` containers. Repeated fields are kept. -/
def Raw.decode (depth : Nat) : Raw → Option Json
  | .null => some .null
  | .bool b => some (.bool b)
  | .number l => (readJsonNumber l).map .number
  | .text cs => (decodeText [] cs).map .text
  | .array items =>
    if depth < nestingLimit then (decodeItems (depth + 1) items).map .array else none
  | .object fields =>
    if depth < nestingLimit then (decodeFields (depth + 1) fields).map .object else none

/-- Decodes items inside `depth` containers. -/
def decodeItems (depth : Nat) : List Raw → Option (List Json)
  | [] => some []
  | r :: rest => do
    let j ← r.decode depth
    let js ← decodeItems depth rest
    return j :: js

/-- Decodes fields inside `depth` containers. -/
def decodeFields (depth : Nat) : List (List Char × Raw) → Option (List (String × Json))
  | [] => some []
  | (name, r) :: rest => do
    let k ← decodeText [] name
    let j ← r.decode depth
    let js ← decodeFields depth rest
    return (k, j) :: js

end

/-- The value of a text, with repeated fields merged. -/
def Json.parse? (s : String) : Option Json := do
  return (← (← scan? s).decode 0).normal

end Stasis
