import Stasis.Envelope.Tagged
import Stasis.Json.Shape

/-!
# Entries of an envelope

* `Slot`: a property as it is written. Parts that are left out say nothing.
* `Entry`: an object, with its properties in order and the payload of its type.
-/

namespace Stasis

/-- The type of objects that hold nothing besides their properties. -/
def plainType : String := "not-special"

/-- A property in an envelope. -/
structure Slot where
  value : Option Tagged := none
  get : Option Tagged := none
  set : Option Tagged := none
  writable : Option Bool := none
  enumerable : Option Bool := none
  configurable : Option Bool := none

/-- The fields of a property, in order. -/
def Slot.fieldNames : List String :=
  ["value", "get", "set", "writable", "enumerable", "configurable"]

/-- The written form of a property, with the parts that are there. -/
def Slot.toJson (s : Slot) : Json :=
  let tagged (name : String) (t : Option Tagged) := t.toList.map fun t => (name, t.toJson)
  let flag (name : String) (b : Option Bool) := b.toList.map fun b => (name, Json.bool b)
  .object (tagged "value" s.value ++ tagged "get" s.get ++ tagged "set" s.set
    ++ flag "writable" s.writable ++ flag "enumerable" s.enumerable
    ++ flag "configurable" s.configurable)

/-- Reads a property. -/
def Slot.ofJson? (j : Json) : Option Slot := do
  let fields ← Fields.ofJson fieldNames j
  return {
    value := ← optional? fields "value" Tagged.ofJson?
    get := ← optional? fields "get" Tagged.ofJson?
    set := ← optional? fields "set" Tagged.ofJson?
    writable := ← optional? fields "writable" Json.bool?
    enumerable := ← optional? fields "enumerable" Json.bool?
    configurable := ← optional? fields "configurable" Json.bool? }

/-- An object in an envelope. -/
structure Entry where
  objectType : String
  prototype : Tagged
  extensible : Bool
  properties : List (Tagged × Slot)
  payload : Json

namespace Entry

/-- The fields of an entry, in order. -/
def fieldNames : List String :=
  ["objectType", "prototype", "isExtensible", "ownProperties", "data"]

/-- The written form of an entry. -/
def toJson (e : Entry) : Json :=
  .object [("objectType", .text e.objectType), ("prototype", e.prototype.toJson),
    ("isExtensible", .bool e.extensible),
    ("ownProperties", .array (e.properties.map fun (k, s) => .array [k.toJson, s.toJson])),
    ("data", e.payload)]

/-- Reads an entry. The payload may be missing. -/
def ofJson? (j : Json) : Option Entry := do
  let fields ← Fields.ofJson fieldNames j
  return {
    objectType := ← required? fields "objectType" Json.text?
    prototype := ← required? fields "prototype" Tagged.ofJson?
    extensible := ← required? fields "isExtensible" Json.bool?
    properties :=
      ← required? fields "ownProperties" (Json.list? (Json.pair? Tagged.ofJson? Slot.ofJson?))
    payload := ((fields.lookup "data").getD .null).normal }

/-- Where the records of an entry stand. -/
def shape : Shape :=
  let slot : Shape := .record (Slot.fieldNames.map fun name => (name, .any))
  .record [("objectType", .any), ("prototype", .any), ("isExtensible", .any),
    ("ownProperties", .list (.pair .any slot)), ("data", .any)]

/-- The values that stand in an entry outside its payload: prototype, keys and properties. -/
def values (e : Entry) : List Tagged :=
  e.prototype :: e.properties.flatMap fun (k, s) =>
    k :: (s.value.toList ++ s.get.toList ++ s.set.toList)

end Entry

end Stasis
