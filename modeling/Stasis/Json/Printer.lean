import Stasis.Json.Tree
import Stasis.Text.Quoted

/-!
# Writing interchange texts

* `Json.compact`: without any blank.
* `Json.pretty`: every item and every field on a line of its own, indented by two blanks.
-/

namespace Stasis

/-- The text of a number. A double keeps a fraction, so that it reads back as one. -/
def JsonNumber.print : JsonNumber → String
  | int n => Number.integerText n
  | double x => if x.isFinite then Number.interchange.render x else "null"

/-- The text of a truth value. -/
def printBool (b : Bool) : String := if b then "true" else "false"

mutual

/-- The text without blanks. -/
def Json.compact : Json → String
  | .null => "null"
  | .bool b => printBool b
  | .number n => n.print
  | .text s => Text.quote s
  | .array items => "[" ++ String.intercalate "," (compactItems items) ++ "]"
  | .object fields => "\x7b" ++ String.intercalate "," (compactFields fields) ++ "\x7d"

/-- The texts of items. -/
def compactItems : List Json → List String
  | [] => []
  | j :: rest => j.compact :: compactItems rest

/-- The texts of fields. -/
def compactFields : List (String × Json) → List String
  | [] => []
  | (k, v) :: rest => (Text.quote k ++ ":" ++ v.compact) :: compactFields rest

end

/-- The blanks at the beginning of a line. -/
def indentation (level : Nat) : String :=
  String.ofList (List.replicate (2 * level) ' ')

/-- Lines inside brackets, with commas between them. -/
def bracketLines (left right : String) (level : Nat) : List String → String
  | [] => left ++ right
  | line :: rest =>
    left ++ "\n" ++ String.intercalate ",\n" (line :: rest) ++ "\n" ++ indentation level ++ right

mutual

/-- The text on lines, inside `level` containers. -/
def Json.prettyAt (level : Nat) : Json → String
  | .null => "null"
  | .bool b => printBool b
  | .number n => n.print
  | .text s => Text.quote s
  | .array items => bracketLines "[" "]" level (prettyItems (level + 1) items)
  | .object fields => bracketLines "\x7b" "\x7d" level (prettyFields (level + 1) fields)

/-- Items, each on its line. -/
def prettyItems (level : Nat) : List Json → List String
  | [] => []
  | j :: rest => (indentation level ++ j.prettyAt level) :: prettyItems level rest

/-- Fields, each on its line. -/
def prettyFields (level : Nat) : List (String × Json) → List String
  | [] => []
  | (k, v) :: rest =>
    (indentation level ++ Text.quote k ++ ": " ++ v.prettyAt level) :: prettyFields level rest

end

/-- The text on lines. -/
def Json.pretty (j : Json) : String := j.prettyAt 0

end Stasis
