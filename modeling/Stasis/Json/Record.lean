import Stasis.Json.Reader

/-!
# Records in interchange texts

A record is written as an object with its fields by name, in any order, or as an array with its
fields in order. A field may not be given twice; unknown fields are passed over, and fields that
have a default may be missing.

* `Fields.ofRaw`: the fields of a record that is still to be decoded.
* `Fields.ofJson`: those of a record that has been decoded.
-/

namespace Stasis

/-- The given fields of a record, by name. -/
abbrev Fields (α : Type) := List (String × α)

/-- Takes the known fields; nothing if one is given twice. -/
def knownFields {α : Type} (names : List String) : List (String × α) → Option (Fields α)
  | [] => some []
  | (k, v) :: rest => do
    let fields ← knownFields names rest
    if names.contains k then
      if (fields.lookup k).isSome then none else some ((k, v) :: fields)
    else some fields

/-- Names the items of an array; nothing if there are too many. -/
def namedItems {α : Type} : List String → List α → Option (Fields α)
  | _, [] => some []
  | [], _ :: _ => none
  | n :: names, a :: items => (namedItems names items).map ((n, a) :: ·)

/-- Decodes the names of fields. -/
def decodeNames : List (List Char × Raw) → Option (List (String × Raw))
  | [] => some []
  | (name, r) :: rest => do
    let k ← decodeText [] name
    let fields ← decodeNames rest
    return (k, r) :: fields

/-- The fields of a record inside `depth` containers, not yet decoded. -/
def Fields.ofRaw (names : List String) (depth : Nat) (r : Raw) : Option (Fields Raw) :=
  if depth < nestingLimit then
    match r with
    | .object fields => do knownFields names (← decodeNames fields)
    | .array items => namedItems names items
    | _ => none
  else none

/-- The fields of a record that has been decoded. -/
def Fields.ofJson (names : List String) : Json → Option (Fields Json)
  | .object fields => knownFields names fields
  | .array items => namedItems names items
  | _ => none

end Stasis
