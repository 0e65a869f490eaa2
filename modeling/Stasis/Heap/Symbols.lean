import Stasis.Heap.Value
import Stasis.Table

/-!
# Symbols

* `Symbols.create`: a symbol unlike every other.
* `Symbols.shared`: the one symbol of a key, made when it is first asked for.
* `Symbols.keyFor?`: the key of a shared symbol.
-/

namespace Stasis

/-- Descriptions of all symbols, and the shared ones by key. -/
structure Symbols where
  descriptions : Array (Option String) := #[]
  byKey : Table String SymbolId := {}

namespace Symbols

variable (s : Symbols)

/-- A new symbol. -/
def create (description : Option String) : SymbolId × Symbols :=
  (s.descriptions.size, { s with descriptions := s.descriptions.push description })

/-- The shared symbol of a key. -/
def shared (key : String) : SymbolId × Symbols :=
  match s.byKey.find? key with
  | some id => (id, s)
  | none =>
    let (id, s) := s.create (some key)
    (id, { s with byKey := s.byKey.insert key id })

/-- The key of a symbol, if it is shared. -/
def keyFor? (id : SymbolId) : Option String :=
  (s.byKey.entries.find? fun (_, other) => other == id).map Prod.fst

/-- The description of a symbol, if it has one. -/
def description? (id : SymbolId) : Option String :=
  s.descriptions[id]?.join

end Symbols

end Stasis
