import Stasis.Json.Record

/-!
# Configuration of a realm

* `Config`: what can be chosen, with its defaults.
* `Config.parse?`: a configuration from an interchange text.
-/

namespace Stasis

/-- What can be chosen when a realm is started. -/
structure Config where
  /-- Copied into every event. -/
  traceId : String := "franken-serializer"
  /-- Instrumented scripts check every expression for being serializable. -/
  wrapExpressions : Bool := false
  /-- The global object is recorded as a host root when the realm starts. -/
  registerGlobalRoot : Bool := true
  /-- Calls nested deeper fail. -/
  maxCallDepth : Nat := 256
  /-- The largest number of elements or bytes that a built-in function makes. -/
  maxArrayLength : Nat := 4194304
  /-- Every envelope that is made is checked for what interchange texts cannot hold. -/
  verifyWireFormat : Bool := true
deriving DecidableEq, Repr

/-- The names of the fields of a configuration, in order. -/
def Config.fieldNames : List String :=
  ["trace_id", "wrap_expressions", "register_global_host_root", "max_call_depth",
   "max_array_length", "verify_wire_format"]

/-- Decodes a field that may be missing; nothing if it is there and is not of its kind. -/
def optionalField {α : Type} (fields : Fields Raw) (depth : Nat) (name : String) (default : α)
    (decode : Json → Option α) : Option α :=
  match fields.lookup name with
  | none => some default
  | some r => (r.decode depth).bind decode

/-- A configuration from an interchange text; fields that are not given have their defaults. -/
def Config.parse? (s : String) : Option Config := do
  let fields ← Fields.ofRaw fieldNames 0 (← scan? s)
  let d : Config := {}
  return {
    traceId := ← optionalField fields 1 "trace_id" d.traceId Json.text?
    wrapExpressions := ← optionalField fields 1 "wrap_expressions" d.wrapExpressions Json.bool?
    registerGlobalRoot :=
      ← optionalField fields 1 "register_global_host_root" d.registerGlobalRoot Json.bool?
    maxCallDepth := ← optionalField fields 1 "max_call_depth" d.maxCallDepth Json.natural?
    maxArrayLength := ← optionalField fields 1 "max_array_length" d.maxArrayLength Json.natural?
    verifyWireFormat :=
      ← optionalField fields 1 "verify_wire_format" d.verifyWireFormat Json.bool? }

/-- The configuration as an interchange value, with all fields. -/
def Config.toJson (c : Config) : Json :=
  .object [("trace_id", .text c.traceId), ("wrap_expressions", .bool c.wrapExpressions),
    ("register_global_host_root", .bool c.registerGlobalRoot),
    ("max_call_depth", Json.ofNat c.maxCallDepth),
    ("max_array_length", Json.ofNat c.maxArrayLength),
    ("verify_wire_format", .bool c.verifyWireFormat)]

end Stasis
