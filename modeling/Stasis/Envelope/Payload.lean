import Stasis.Envelope.ObjectType
import Stasis.Envelope.Tagged

/-!
# Payloads of entries

What an object holds besides its properties is written in the payload of its entry.

* `Payload`: the payloads, by the type of the entry.
* `Payload.toJson`, `Payload.ofJson?`: their written form.
* `payloadValues`: the tagged values in a payload of any form.
-/

namespace Stasis

/-- A whole number of moderate size as an integer, any other finite one as a double, and null in
place of what is not finite. -/
def jsonOfNumber (x : Float) : Json :=
  if !x.isFinite then .null
  else if Number.isWhole x && x.abs < 9007199254740992 then .number (.int (Number.integerPart x))
  else .number (.double x)

/-- What an object holds besides its properties. -/
inductive Payload where
  /-- Nothing. -/
  | empty
  | classPrototype (owner : Tagged)
  /-- A function that is made from its source, with its captured names. -/
  | source (captures : List (String × Tagged)) (text : String)
  /-- A function that is reached from its class. If the class holds another one in its place by
  now, the class has to be made again. -/
  | member (owner : Tagged) (expression : String) (detached : Bool)
  | map (entries : List (Tagged × Tagged))
  | set (elements : List Tagged)
  | wrapper (value : Tagged)
  | regexp (pattern flags : String)
  | error (message name : String) (stack : Option String)
  | date (time : Option Float)
  | pending
  | fulfilled (value : Tagged)
  | rejected (value : Tagged)
  | buffer (detached resizable : Bool) (length maxLength : Nat) (content : String)
  | bytes (viewed : Tagged) (offset length : Nat)

namespace Payload

/-- The written form of a payload. -/
def toJson : Payload → Json
  | empty => .object []
  | classPrototype owner => .object [("class", owner.toJson)]
  | source captures text =>
    let capture (c : String × Tagged) : Json :=
      .object [("name", .text c.1), ("value", c.2.toJson)]
    .object [("functionType", .text "syntactic"), ("scope", .array (captures.map capture)),
      ("source", .text text)]
  | member owner expression detached =>
    .object ([("functionType", .text "class"), ("class", owner.toJson),
      ("expression", .text expression)]
      ++ if detached then [("detached", .bool true)] else [])
  | map entries =>
    .object [("entries", .array (entries.map fun (k, v) => .array [k.toJson, v.toJson]))]
  | set elements => .object [("elements", .array (elements.map Tagged.toJson))]
  | wrapper value => .object [("value", value.toJson)]
  | regexp pattern flags => .object [("source", .text pattern), ("flags", .text flags)]
  | error message name stack =>
    .object [("message", .text message), ("name", .text name),
      ("stack", (stack.map Json.text).getD .null)]
  | date time => .object [("ms", (time.map jsonOfNumber).getD .null)]
  | pending => .object [("state", .text "pending")]
  | fulfilled value => .object [("state", .text "fulfilled"), ("value", value.toJson)]
  | rejected value => .object [("state", .text "rejected"), ("value", value.toJson)]
  | buffer detached resizable length maxLength content =>
    .object [("detached", .bool detached), ("resizable", .bool resizable),
      ("byteLength", Json.ofNat length), ("maxByteLength", Json.ofNat maxLength),
      ("content", .text content)]
  | bytes viewed offset length =>
    .object [("buffer", viewed.toJson), ("byteOffset", Json.ofNat offset),
      ("length", Json.ofNat length)]

/-- Reads a captured name with its value. -/
def capture? (j : Json) : Option (String × Tagged) := do
  let fields ← Fields.ofJson ["name", "value"] j
  return (← required? fields "name" Json.text?, ← required? fields "value" Tagged.ofNested?)

/-- Reads the payload of a function. -/
def function? (j : Json) : Option Payload := do
  let (tag, parts) ← splitTag? "functionType" j
  let tag ← tag.text?
  if tag = "syntactic" then
    let fields ← Fields.ofJson ["scope", "source"] parts
    return source (← required? fields "scope" (Json.list? capture?))
      (← required? fields "source" Json.text?)
  else if tag = "class" then
    let fields ← Fields.ofJson ["class", "expression", "detached"] parts
    let detached ← match fields.lookup "detached" with
      | some j => j.bool?
      | none => some false
    return member (← required? fields "class" Tagged.ofNested?)
      (← required? fields "expression" Json.text?) detached
  else none

/-- Reads the payload of a promise. -/
def promise? (j : Json) : Option Payload := do
  let (tag, parts) ← splitTag? "state" j
  let tag ← tag.text?
  let value : Option Tagged := do
    required? (← Fields.ofJson ["value"] parts) "value" Tagged.ofNested?
  if tag = "pending" then if emptyParts parts then some pending else none
  else if tag = "fulfilled" then value.map fulfilled
  else if tag = "rejected" then value.map rejected
  else none

/-- Reads a payload that is a tagged value in a field. -/
def single? (name : String) (make : Tagged → Payload) (j : Json) : Option Payload := do
  return make (← required? (← Fields.ofJson [name] j) name Tagged.ofJson?)

/-- Reads a number. -/
def time? : Json → Option Float
  | .number n => some n.toFloat
  | _ => none

/-- Reads the payload of an entry of a type. Arrays have none, whatever is written. -/
def ofJson? (type : ObjectType) (j : Json) : Option Payload :=
  match type with
  | .array => some empty
  | .classPrototype => single? "class" classPrototype j
  | .function => function? j
  | .map => do
    let fields ← Fields.ofJson ["entries"] j
    return map (← required? fields "entries" (Json.list? (Json.pair? Tagged.ofJson? Tagged.ofJson?)))
  | .set => do
    let fields ← Fields.ofJson ["elements"] j
    return set (← required? fields "elements" (Json.list? Tagged.ofJson?))
  | .wrapper => single? "value" wrapper j
  | .regexp => do
    let fields ← Fields.ofJson ["source", "flags"] j
    return regexp (← required? fields "source" Json.text?) (← required? fields "flags" Json.text?)
  | .error => do
    let fields ← Fields.ofJson ["message", "name", "stack"] j
    -- an array has to give every field, an object may leave the stack out
    match j, fields.lookup "stack" with
    | .array _, none => none
    | _, _ =>
      return error (← required? fields "message" Json.text?) (← required? fields "name" Json.text?)
        (← optional? fields "stack" Json.text?)
  | .date => do
    let fields ← Fields.ofJson ["ms"] j
    -- an array has to give every field, an object may leave the time out
    match j, fields.lookup "ms" with
    | .array _, none => none
    | _, _ => return date (← optional? fields "ms" time?)
  | .promise => promise? j
  | .buffer => do
    let fields ← Fields.ofJson ["detached", "resizable", "byteLength", "maxByteLength", "content"] j
    return buffer (← required? fields "detached" Json.bool?) (← required? fields "resizable" Json.bool?)
      (← required? fields "byteLength" Json.natural?) (← required? fields "maxByteLength" Json.natural?)
      (← required? fields "content" Json.text?)
  | .bytes => do
    let fields ← Fields.ofJson ["buffer", "byteOffset", "length"] j
    return bytes (← required? fields "buffer" Tagged.ofJson?)
      (← required? fields "byteOffset" Json.natural?) (← required? fields "length" Json.natural?)

end Payload

mutual

/-- The tagged values in a payload, the outermost ones. -/
def payloadValues : Json → List Tagged
  | .null | .bool _ | .number _ | .text _ => []
  | .array items => valuesOfItems items
  | .object fields =>
    match (fields.lookup "type").bind fun _ => Tagged.ofJson? (.object fields) with
    | some t => [t]
    | none => valuesOfFields fields

/-- The tagged values in items. -/
def valuesOfItems : List Json → List Tagged
  | [] => []
  | j :: rest => payloadValues j ++ valuesOfItems rest

/-- The tagged values in fields. -/
def valuesOfFields : List (String × Json) → List Tagged
  | [] => []
  | (_, j) :: rest => payloadValues j ++ valuesOfFields rest

end

/-- The values that have to be made before an entry of a type can be linked: captured names or the
class of a function, and every tagged value in any other payload. -/
def ObjectType.dependencies (type : ObjectType) (payload : Json) : List Tagged :=
  match type with
  | .function =>
    match Payload.function? payload with
    | some (.source captures _) => captures.map Prod.snd
    | some (.member owner _ _) => [owner]
    | _ => []
  | _ => payloadValues payload

end Stasis
