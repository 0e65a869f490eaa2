import Stasis.Number.Layout

/-!
# Interchange values

* `Json`: a value of an interchange text. Objects keep the order of their fields.
* `Json.normal`: the value with every field of an object given once.
* `Json.field?`: a field of an object.
-/

namespace Stasis

/-- A number of an interchange text. Integers of 64 bits stay integers. -/
inductive JsonNumber where
  | int (value : Int)
  | double (value : Float)
deriving Repr

/-- A value of an interchange text. -/
inductive Json where
  | null
  | bool (value : Bool)
  | number (value : JsonNumber)
  | text (value : String)
  | array (items : List Json)
  | object (fields : List (String × Json))
deriving Repr, Inhabited

/-- The double that a number stands for. -/
def JsonNumber.toFloat : JsonNumber → Float
  | int n => Number.ofInt n
  | double x => x

/-- Gives a field a value, in its place if it is there. -/
def setField (name : String) (value : Json) : List (String × Json) → List (String × Json)
  | [] => [(name, value)]
  | (k, v) :: rest => if k = name then (k, value) :: rest else (k, v) :: setField name value rest

mutual

/-- The value with repeated fields merged: the first gives the place, the last the value. -/
def Json.normal : Json → Json
  | .null => .null
  | .bool b => .bool b
  | .number n => .number n
  | .text s => .text s
  | .array items => .array (normalItems items)
  | .object fields => .object (normalFields [] fields)

/-- Merges repeated fields in every item. -/
def normalItems : List Json → List Json
  | [] => []
  | j :: rest => j.normal :: normalItems rest

/-- Merges repeated fields, after those that came before. -/
def normalFields (before : List (String × Json)) : List (String × Json) → List (String × Json)
  | [] => before
  | (k, v) :: rest => normalFields (setField k v.normal before) rest

end

/-- A field of an object. -/
def Json.field? (j : Json) (name : String) : Option Json :=
  match j with
  | .object fields => fields.lookup name
  | _ => none

/-- The text that a value is. -/
def Json.text? : Json → Option String
  | text s => some s
  | _ => none

/-- The truth value that a value is. -/
def Json.bool? : Json → Option Bool
  | bool b => some b
  | _ => none

/-- The natural number that a value is. -/
def Json.natural? : Json → Option Nat
  | number (.int n) => if 0 ≤ n then some n.toNat else none
  | _ => none

/-- A natural number. -/
def Json.ofNat (n : Nat) : Json := .number (.int n)

end Stasis
