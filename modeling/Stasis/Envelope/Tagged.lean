import Stasis.Json.Printer
import Stasis.Json.Record

/-!
# Tagged values

An interchange text has no infinities, no symbols and no references, so a value in an envelope is a
record with a tag that says what it is.

* `Tagged`: the values of an envelope.
* `Tagged.toJson`, `Tagged.ofJson?`: their written form, an object with a field `type`; an array
  that begins with the tag is read as well.
* `Tagged.reference?`: the entry that a value refers to.
* `Tagged.unsafeIn?`: what is wrong with a value that an interchange text cannot hold.
-/

namespace Stasis

/-- A value in an envelope. -/
inductive Tagged where
  /-- A text, a finite number, a truth value or null. -/
  | simple (value : Json)
  | nan
  | infinity
  | negativeInfinity
  | negativeZero
  | bigint (digits : String)
  | undefined
  /-- A symbol unlike every other. -/
  | ownSymbol (reference : String) (description : Option String)
  | sharedSymbol (key : String)
  | hostObject (path : String)
  /-- Something that was left out. -/
  | omitted
  | entry (reference : String)
deriving Repr, Inhabited

/-- The tag and the parts of a tagged record. The tag of an object is given once, in any place. -/
def splitTag? (name : String) : Json → Option (Json × Json)
  | .object fields =>
    match fields.filter (fun f => f.1 == name) with
    | [(_, tag)] => some (tag, .object (fields.filter fun f => f.1 != name))
    | _ => none
  | .array (tag :: rest) => some (tag, .array rest)
  | _ => none

/-- The parts of a record without fields: any object, or no items. -/
def emptyParts : Json → Bool
  | .array (_ :: _) => false
  | _ => true

/-- Decodes a field that has to be there. -/
def required? {α : Type} (fields : Fields Json) (name : String) (decode : Json → Option α) :
    Option α :=
  (fields.lookup name).bind decode

/-- Decodes a field that may be missing or null. -/
def optional? {α : Type} (fields : Fields Json) (name : String) (decode : Json → Option α) :
    Option (Option α) :=
  match fields.lookup name with
  | none | some .null => some none
  | some j => (decode j).map some

/-- Every item decoded. -/
def Json.list? {α : Type} (decode : Json → Option α) : Json → Option (List α)
  | .array items => items.mapM decode
  | _ => none

/-- Both items of a pair decoded. -/
def Json.pair? {α β : Type} (first : Json → Option α) (second : Json → Option β) :
    Json → Option (α × β)
  | .array [a, b] => do return (← first a, ← second b)
  | _ => none

namespace Tagged

/-- The tags, in the order of their numbers. -/
def tags : List String :=
  ["simple", "nan", "infinity", "negative-infinity", "negative-zero", "bigint", "undefined",
   "unregistered-symbol", "registered-symbol", "host-object", "manual-stop", "object-like"]

/-- The written form. -/
def toJson : Tagged → Json
  | simple value => .object [("type", .text "simple"), ("value", value)]
  | nan => .object [("type", .text "nan")]
  | infinity => .object [("type", .text "infinity")]
  | negativeInfinity => .object [("type", .text "negative-infinity")]
  | negativeZero => .object [("type", .text "negative-zero")]
  | bigint digits => .object [("type", .text "bigint"), ("valueString", .text digits)]
  | undefined => .object [("type", .text "undefined")]
  | ownSymbol reference description =>
    .object ([("type", .text "unregistered-symbol"), ("reference", .text reference)]
      ++ description.toList.map fun d => ("description", .text d))
  | sharedSymbol key => .object [("type", .text "registered-symbol"), ("key", .text key)]
  | hostObject path => .object [("type", .text "host-object"), ("path", .text path)]
  | omitted => .object [("type", .text "manual-stop")]
  | entry reference => .object [("type", .text "object-like"), ("reference", .text reference)]

/-- Reads the parts behind a tag. -/
def ofParts? (tag : String) (parts : Json) : Option Tagged :=
  let text (name : String) : Option String := do
    required? (← Fields.ofJson [name] parts) name Json.text?
  let plain (t : Tagged) : Option Tagged := if emptyParts parts then some t else none
  if tag = "simple" then do
    return simple (← required? (← Fields.ofJson ["value"] parts) "value" some).normal
  else if tag = "nan" then plain nan
  else if tag = "infinity" then plain infinity
  else if tag = "negative-infinity" then plain negativeInfinity
  else if tag = "negative-zero" then plain negativeZero
  else if tag = "bigint" then (text "valueString").map bigint
  else if tag = "undefined" then plain undefined
  else if tag = "unregistered-symbol" then do
    let fields ← Fields.ofJson ["reference", "description"] parts
    return ownSymbol (← required? fields "reference" Json.text?)
      (← optional? fields "description" Json.text?)
  else if tag = "registered-symbol" then (text "key").map sharedSymbol
  else if tag = "host-object" then (text "path").map hostObject
  else if tag = "manual-stop" then plain omitted
  else if tag = "object-like" then (text "reference").map entry
  else none

/-- Reads a tagged value. -/
def ofJson? (j : Json) : Option Tagged := do
  let (tag, parts) ← splitTag? "type" j
  ofParts? (← tag.text?) parts

/-- Reads a tagged value inside a tagged record, where a tag may also be given by its number. -/
def ofNested? (j : Json) : Option Tagged := do
  let (tag, parts) ← splitTag? "type" j
  match tag with
  | .number (.int n) => if 0 ≤ n then ofParts? (← tags[n.toNat]?) parts else none
  | _ => ofParts? (← tag.text?) parts

/-- The entry that a value refers to. -/
def reference? : Tagged → Option String
  | entry reference => some reference
  | _ => none

/-- What is wrong with a value that is not what an interchange text can hold in its place. -/
def unsafeIn? («at» : String) : Tagged → Option String
  | simple value =>
    let bad := some («at» ++ ": simple value " ++ value.compact ++ " is not a JSON primitive")
    match value with
    | .text _ | .bool _ | .null => none
    | .number n => if n.toFloat.isFinite then none else bad
    | .array _ | .object _ => bad
  | _ => none

end Tagged

end Stasis
