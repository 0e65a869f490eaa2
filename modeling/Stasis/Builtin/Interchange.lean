import Stasis.Builtin.Invocation
import Stasis.Envelope.Payload
import Stasis.Json.Printer
import Stasis.Json.Reader

/-!
# Interchange texts in scripts

* `interchangeForm`: a value as an interchange text can hold it. Functions and symbols are left out,
  and so is `undefined`.
* `valueOfJson`: the value that an interchange value stands for.
* `applyJson`: the functions of `JSON`.
-/

namespace Stasis

mutual

/-- The value that an interchange value stands for. -/
def valueOfJson : Json → Run Value
  | .null => return .null
  | .bool b => return .bool b
  | .number n => return .number n.toFloat
  | .text s => return .text s
  | .array items => do return .object (← newArray (← valuesOfArray items))
  | .object fields => do
    let id ← newObject
    addFields id fields
    return .object id

/-- The values that items stand for. -/
def valuesOfArray : List Json → Run (List Value)
  | [] => return []
  | j :: rest => do
    let v ← valueOfJson j
    return v :: (← valuesOfArray rest)

/-- Gives an object the fields of an interchange value. -/
def addFields (id : ObjectId) : List (String × Json) → Run Unit
  | [] => return ()
  | (name, j) :: rest => do
    addProperty id (.text name) (← valueOfJson j)
    addFields id rest

end

variable [Machine]

/-- The fields of an object, inside the objects in `seen`. -/
def interchangeFields (id : ObjectId) (seen : List ObjectId) : Run (List (String × Json)) := do
  let entries := (← objectAt id).ownEntries
  let names := entries.filterMap fun (k, d) => if d.isEnumerable then k.text? else none
  let fields ← names.mapM fun name => do
    return (← jsonOf (← getOf id name) seen).map fun j => (name, j)
  return fields.filterMap fun field => field

/-- A value as an interchange text can hold it, inside the objects in `seen`; nothing where it is
left out. -/
def interchangeForm (v : Value) (seen : List ObjectId) : Run (Option Json) := do
  match v with
  | .undefined | .symbol _ => return none
  | .null => return some .null
  | .bool b => return some (.bool b)
  | .number x => return some (jsonOfNumber x)
  | .text s => return some (.text s)
  | .bigint _ => throwType "Do not know how to serialize a BigInt"
  | .object id =>
    match ← kindOf id with
    | .function _ => return none
    | .wrapper inner => jsonOf inner seen
    | kind =>
      if seen.contains id then throwType "Converting circular structure to JSON"
      if kind.isArray then
        let items ← (← arrayItems id).mapM fun item => jsonOf item (id :: seen)
        return some (.array (items.map fun item => item.getD .null))
      return some (.object (← interchangeFields id (id :: seen)))

/-- The argument asks for a text on lines. -/
def asksForLines : Value → Bool
  | .number x => 0 < x
  | .text s => !s.isEmpty
  | _ => false

/-- Calls a function of `JSON`. -/
def applyJson (op : JsonNative) (c : Invocation) : Run Value := do
  match op with
  | .stringify =>
    match ← jsonOf (c.arg 0) [] with
    | none => return .undefined
    | some j => return .text (if asksForLines (c.arg 2) then j.pretty else j.compact)
  | .parse =>
    match Json.parse? (← toText (c.arg 0)) with
    | some j => valueOfJson j
    | none => throwSyntax "Unexpected token in JSON: this is not an interchange text"

end Stasis
