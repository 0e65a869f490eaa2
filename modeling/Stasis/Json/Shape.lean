import Stasis.Json.Record

/-!
# Shapes of nested records

A reader of records passes over unknown fields without decoding them. A shape says where records
stand in a text, so that these fields can be dropped before the text is decoded as a whole.

* `Shape`: a record, a table, a list, a pair, or a value of any kind.
* `Raw.restrict`: the text without the fields that no record of the shape has.
* `Json.parseShaped?`: the decoded rest.
-/

namespace Stasis

/-- Where records stand in a text. -/
inductive Shape where
  | any
  | record (fields : List (String × Shape))
  | table (value : Shape)
  | list (item : Shape)
  | pair (first second : Shape)

namespace Shape

/-- The shape of a field, if it is one of the shape. A name that cannot be decoded is kept for the
decoder to refuse. -/
def field? (name : List Char) : Shape → Option Shape
  | record fields =>
    match decodeText [] name with
    | some k => fields.lookup k
    | none => some any
  | table value => some value
  | any | list _ | pair .. => some any

/-- The shape of an item. Records written as arrays have their fields in order. -/
def item (index : Nat) : Shape → Shape
  | record fields => (fields[index]?.map Prod.snd).getD any
  | list s => s
  | pair first second => if index = 0 then first else second
  | any | table _ => any

end Shape

mutual

/-- The text without the fields that no record of the shape has. -/
def Raw.restrict (shape : Shape) : Raw → Raw
  | .null => .null
  | .bool b => .bool b
  | .number l => .number l
  | .text cs => .text cs
  | .array items => .array (restrictItems shape 0 items)
  | .object fields => .object (restrictFields shape fields)

/-- Restricts items from an index on. -/
def restrictItems (shape : Shape) (index : Nat) : List Raw → List Raw
  | [] => []
  | r :: rest => r.restrict (shape.item index) :: restrictItems shape (index + 1) rest

/-- Restricts the known fields and drops the others. -/
def restrictFields (shape : Shape) : List (List Char × Raw) → List (List Char × Raw)
  | [] => []
  | (name, r) :: rest =>
    match shape.field? name with
    | some s => (name, r.restrict s) :: restrictFields shape rest
    | none => restrictFields shape rest

end

/-- Decodes what is left of a text of a shape. Repeated fields are kept. -/
def Json.parseShaped? (shape : Shape) (s : String) : Option Json := do
  ((← scan? s).restrict shape).decode 0

end Stasis
