import Stasis.Text.Extending
import Stasis.Text.Printable

/-!
# Texts shown to a reader

In messages a text stands in quotes, with escapes for whatever a reader could not see.

* `shownText`: a text in double quotes.
* `shownChar`: a character in single quotes.
-/

namespace Stasis.Text

/-- A code point in braces. -/
def codePointEscape (c : Char) : List Char :=
  '\\' :: 'u' :: '\x7b' :: (Nat.toDigits 16 c.toNat ++ ['\x7d'])

/-- A character between the given quotes. Extending characters are escaped, since they would
attach to the character before them. -/
def shownIn (quote c : Char) : List Char :=
  if c = '\x00' then ['\\', '0']
  else if c = '\t' then ['\\', 't']
  else if c = '\r' then ['\\', 'r']
  else if c = '\n' then ['\\', 'n']
  else if c = quote ∨ c = '\\' then ['\\', c]
  else if isExtending c || !isPrintable c then codePointEscape c
  else [c]

/-- A text in double quotes. -/
def shownText (s : String) : String :=
  String.ofList ('"' :: (s.toList.flatMap (shownIn '"') ++ ['"']))

/-- A character in single quotes. -/
def shownChar (c : Char) : String :=
  String.ofList ('\'' :: (shownIn '\'' c ++ ['\'']))

/-- A list of texts in brackets. -/
def shownList (ss : List String) : String :=
  "[" ++ String.intercalate ", " (ss.map shownText) ++ "]"

end Stasis.Text
