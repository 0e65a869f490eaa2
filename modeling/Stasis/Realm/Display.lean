import Stasis.Realm.Basic

/-!
# How values are shown

Showing a value reads properties and slots, and never runs a script.

* `Realm.show?`: a value as it is printed. Lists and objects are shown three levels deep, and one
  inside itself is not shown again.
* `Realm.describe?`: an error as its name and message, anything else as it is shown.
* `typeOf`: the word for the type of a value.
-/

namespace Stasis

/-- This many elements of an array are shown. -/
def shownElements : Nat := 100

namespace Realm

variable (r : Realm)

/-- The word for the type of a value. -/
def typeOf : Value → String
  | .undefined => "undefined"
  | .null => "object"
  | .bool _ => "boolean"
  | .number _ => "number"
  | .bigint _ => "bigint"
  | .text _ => "string"
  | .symbol _ => "symbol"
  | .object id => if r.store.isFunction id then "function" else "object"

/-- The value is a function. -/
def isCallable (v : Value) : Bool := v.object?.any r.store.isFunction

/-- A symbol with its description. -/
def symbolText (id : SymbolId) : String :=
  "Symbol(" ++ (r.symbols.description? id).getD "" ++ ")"

/-- A key as scripts print it. -/
def keyText : Key → String
  | .text s => s
  | .symbol id => r.symbolText id

/-- The text that a property holds as a stored value. -/
def textProperty? (id : ObjectId) (name : String) : Option String :=
  match r.store.lookup id (.text name) with
  | .ok (some (_, .data (.text s) ..)) => some s
  | _ => none

/-- The name and the message of an object that has both. -/
def errorLine? (id : ObjectId) : Option String := do
  let name ← r.textProperty? id "name"
  let message ← r.textProperty? id "message"
  return if message.isEmpty then name else name ++ ": " ++ message

/-- The own name of a function, or a word in its place. -/
def nameOr (fallback : String) (o : Object) : String :=
  match o.own? (.text "name") with
  | some (.data (.text s) ..) => if s.isEmpty then fallback else s
  | _ => fallback

/-- Items in brackets with a comma between them. -/
def bracketed (left right : String) (items : List String) : String :=
  left ++ String.intercalate ", " items ++ right

/-- Shows a value at a depth inside the objects that are being shown. Nothing comes of it when
`steps` values inside each other are not enough. -/
def showFrom? (steps depth : Nat) (seen : List ObjectId) (top : Bool) (v : Value) :
    Option String :=
  match steps with
  | 0 => none
  | steps + 1 =>
    let inner (seen : List ObjectId) (v : Value) := showFrom? steps (depth + 1) seen false v
    match v with
    | .text s => some (if top then s else "'" ++ s ++ "'")
    | .symbol id => some (r.symbolText id)
    | .object id =>
      if seen.contains id then some "[Circular]"
      else
        match r.store.get id with
        | .error _ => some "[object]"
        | .ok o =>
          let name := nameOr "(anonymous)" o
          match o.kind with
          | .function (.class ..) => some ("[class " ++ name ++ "]")
          | .function _ => some ("[Function: " ++ name ++ "]")
          | .error => r.errorLine? id
          | .date time => some ("Date(" ++ Number.scriptText time ++ ")")
          | .regexp source flags => some ("/" ++ source ++ "/" ++ flags)
          | .wrapper value => do
            -- a wrapper adds no depth
            return "[" ++ (← showFrom? steps depth seen false value) ++ "]"
          | .promise .pending => some "Promise \x7b <pending> \x7d"
          | .promise (.fulfilled value) => do
            return "Promise \x7b " ++ (← inner seen value) ++ " \x7d"
          | .promise (.rejected value) => do
            return "Promise \x7b <rejected> " ++ (← inner seen value) ++ " \x7d"
          | .array =>
            if 2 < depth then some "[Object]"
            else do
              let length := o.arrayLength
              let element (i : Nat) : Option String :=
                match o.own? (.ofIndex i) with
                | some (.data value ..) => inner (id :: seen) value
                | _ => some "<empty>"
              let items ← (List.range (min length shownElements)).mapM element
              let more := length - shownElements
              return bracketed "[" "]"
                (if more = 0 then items else items ++ ["... " ++ toString more ++ " more items"])
          | .map entries =>
            if 2 < depth then some "[Object]"
            else do
              let items ← entries.entries.mapM fun (k, value) => do
                return (← inner (id :: seen) k.toValue) ++ " => " ++ (← inner (id :: seen) value)
              return bracketed ("Map(" ++ toString entries.size ++ ") \x7b") "\x7d" items
          | .set elements =>
            if 2 < depth then some "[Object]"
            else do
              let items ← elements.keys.mapM fun k => inner (id :: seen) k.toValue
              return bracketed ("Set(" ++ toString elements.size ++ ") \x7b") "\x7d" items
          | .ordinary | .buffer _ | .bytes .. =>
            if 2 < depth then some "[Object]"
            else do
              let items ← (o.ownEntries.filter fun (_, d) => d.isEnumerable).mapM fun (k, d) => do
                let shown ← match d with
                  | .data value .. => inner (id :: seen) value
                  | .accessor .. => some "[Getter/Setter]"
                return r.keyText k ++ ": " ++ shown
              return if items.isEmpty then "\x7b\x7d" else bracketed "\x7b " " \x7d" items
    | v => some v.describe

/-- Values inside each other, all of them different but for the three that may be shown again
behind each list or object. -/
def showLimit : Nat := 4 * (r.store.size + 2)

/-- A value as it is printed; nothing if that would never end. -/
def show? (v : Value) : Option String := r.showFrom? r.showLimit 0 [] true v

/-- A thrown value in a message. -/
def describe? (v : Value) : Option String :=
  match v with
  | .object id =>
    match r.errorLine? id with
    | some line => some line
    | none => r.show? v
  | _ => r.show? v

end Realm

/-- A value as it is printed. -/
def display (v : Value) : Run String := do
  match (← get).show? v with
  | some s => pure s
  | none => throw .outOfFuel

/-- A key as scripts print it. -/
def displayKey (k : Key) : Run String := return (← get).keyText k

end Stasis
