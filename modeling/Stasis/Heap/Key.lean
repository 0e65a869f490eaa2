import Stasis.Heap.Value
import Stasis.Number.Reader

/-!
# Property keys

* `Key`: a text or a symbol.
* `Key.arrayIndex?`: the index that a key denotes, if it is one in canonical form.
-/

namespace Stasis

/-- The name of a property. -/
inductive Key where
  | text (value : String)
  | symbol (id : SymbolId)
deriving DecidableEq, Repr

/-- Array indices end below this number. -/
def indexLimit : Nat := 0xFFFFFFFF

/-- The digits of an index have no leading zero. -/
def isCanonicalIndex (cs : List Char) : Bool :=
  !cs.isEmpty && cs.all Char.isDigit && (cs.length == 1 || cs.head? != some '0')

/-- The index that a key denotes: a text that is the decimal form of a number below
`indexLimit`. -/
def Key.arrayIndex? : Key → Option Nat
  | .symbol _ => none
  | .text s =>
    let cs := s.toList
    if isCanonicalIndex cs && decide (cs.length ≤ 10) then
      let n := Number.decimalValue cs
      if n < indexLimit then some n else none
    else none

/-- The key of an index. -/
def Key.ofIndex (n : Nat) : Key :=
  .text (toString n)

/-- The text of a key that is one. -/
def Key.text? : Key → Option String
  | .text s => some s
  | .symbol _ => none

/-- A key in messages. -/
def Key.describe : Key → String
  | .text s => s
  | .symbol id => "Symbol(" ++ toString id ++ ")"

/-- The key under which an array keeps its length. -/
def Key.length : Key := .text "length"

end Stasis
