/-!
# Quoted texts

The interchange form of a text: double quotes around it, a backslash before what could not stand
inside them.

* `quotedChar`: the form of one character.
* `quote`: the form of a text.
-/

namespace Stasis.Text

/-- A hexadecimal digit. -/
def hexDigit (n : Nat) : Char :=
  Nat.digitChar (n % 16)

/-- A character as it stands between quotes. Quotes, backslashes and control characters are
escaped, all else stands for itself. -/
def quotedChar (c : Char) : List Char :=
  if c = '"' then ['\\', '"']
  else if c = '\\' then ['\\', '\\']
  else if c = '\x08' then ['\\', 'b']
  else if c = '\t' then ['\\', 't']
  else if c = '\n' then ['\\', 'n']
  else if c = '\x0c' then ['\\', 'f']
  else if c = '\r' then ['\\', 'r']
  else if c.toNat < 0x20 then
    ['\\', 'u', '0', '0', hexDigit (c.toNat / 16), hexDigit c.toNat]
  else [c]

/-- The characters of a quoted text. -/
def quoted (cs : List Char) : List Char :=
  '"' :: (cs.flatMap quotedChar ++ ['"'])

/-- A text in quotes. -/
def quote (s : String) : String :=
  String.ofList (quoted s.toList)

example : quote "a\"\\\n\x01" = "\"a\\\"\\\\\\n\\u0001\"" := by decide +kernel

end Stasis.Text
