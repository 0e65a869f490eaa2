import Stasis.Digest
import Stasis.Envelope.Entry
import Stasis.Envelope.Payload
import Stasis.Error
import Stasis.Table

/-!
# Envelopes

An envelope is a value outside of any realm: a tagged value, and an entry for every object that it
refers to.

* `Envelope.compact`, `Envelope.pretty`, `Envelope.parse`: the written form.
* `Envelope.digest`: a name for the content.
* `Envelope.checkSafe`: every value is one that an interchange text can hold.
-/

namespace Stasis

/-- A value outside of any realm. -/
structure Envelope where
  entries : Table String Entry
  root : Tagged

namespace Envelope

variable (e : Envelope)

/-- The envelope as an interchange value. -/
def toJson : Json :=
  .object [("heap", .object (e.entries.entries.map fun (k, entry) => (k, entry.toJson))),
    ("serialized", e.root.toJson)]

/-- The envelope as a text without blanks. -/
def compact : String := e.toJson.compact

/-- The envelope as a text on lines. -/
def pretty : String := e.toJson.pretty

/-- A name for the content: the digest of the compact text. -/
def digest : String := "sha256:" ++ Digest.sha256 e.compact

/-- Reads the table of entries. -/
def entriesOf? : Json → Option (Table String Entry)
  | .object fields => do
    return Table.ofList (← fields.mapM fun (k, j) => do return (k, ← Entry.ofJson? j))
  | _ => none

/-- Reads an envelope. -/
def ofJson? (j : Json) : Option Envelope := do
  let fields ← Fields.ofJson ["heap", "serialized"] j
  return {
    entries := ← required? fields "heap" entriesOf?
    root := ← required? fields "serialized" Tagged.ofJson? }

/-- Where the records of an envelope stand. -/
def shape : Shape :=
  .record [("heap", .table Entry.shape), ("serialized", .any)]

/-- The failure for what is no envelope. -/
def malformed : EngineError :=
  .invalidEnvelope "malformed envelope: this is not an envelope"

/-- Reads an envelope from an interchange value. -/
def ofJson (j : Json) : Except EngineError Envelope :=
  match ofJson? j with
  | some e => .ok e
  | none => .error malformed

/-- Reads an envelope from a text. -/
def parse (s : String) : Except EngineError Envelope :=
  match (Json.parseShaped? shape s).bind ofJson? with
  | some e => .ok e
  | none => .error malformed

/-- Every value is one that an interchange text can hold. -/
def checkSafe : Except EngineError Unit :=
  let inEntries := e.entries.entries.flatMap fun (reference, entry) =>
    (entry.values ++ payloadValues entry.payload).map fun t => t.unsafeIn? reference
  match (e.root.unsafeIn? "serialized" :: inEntries).findSome? id with
  | some detail => .error (.residue detail)
  | none => .ok ()

end Envelope

/-- Reads a tagged value on its own. -/
def Tagged.ofJson (j : Json) : Except EngineError Tagged :=
  match Tagged.ofJson? j with
  | some t => .ok t
  | none => .error (.invalidEnvelope "malformed value: this is not a tagged value")

end Stasis
