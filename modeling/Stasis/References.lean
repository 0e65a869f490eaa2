import Stasis.Heap.Value
import Stasis.Table

/-!
# References

Objects and symbols go by references in an envelope. A realm numbers them with one counter, so that
two envelopes of a realm never use one reference for two objects. A symbol that was resumed keeps
the reference by which it was read.

* `References.ofObject`, `References.ofSymbol`: the reference of an object or a symbol, made when
  it is first asked for.
* `References.symbol?`: the symbol of a reference.
* `References.bindSymbol`: gives a resumed symbol its reference.
-/

namespace Stasis

/-- The reference with a number. -/
def referenceOf (n : Nat) : String := "ref" ++ toString n

/-- The references that a realm has given. -/
structure References where
  next : Nat := 0
  objects : Table ObjectId String := {}
  symbols : Table SymbolId String := {}
  byReference : Table String SymbolId := {}

namespace References

variable (r : References)

/-- The first number from `n` on, within `steps`, whose reference is not that of a symbol. -/
def freeFrom : Nat → Nat → Nat
  | 0, n => n
  | steps + 1, n => if r.byReference.contains (referenceOf n) then freeFrom steps (n + 1) else n

/-- A reference that was never used. Among one more numbers than there are symbols, one is free. -/
def allocate : String × References :=
  let n := r.freeFrom (r.byReference.size + 1) r.next
  (referenceOf n, { r with next := n + 1 })

/-- The reference of an object. -/
def ofObject (id : ObjectId) : String × References :=
  match r.objects.find? id with
  | some reference => (reference, r)
  | none =>
    let (reference, r) := r.allocate
    (reference, { r with objects := r.objects.insert id reference })

/-- Makes a reference stand for a symbol, and a symbol go by a reference, where neither is known. -/
def bindSymbol (reference : String) (id : SymbolId) : References :=
  { r with symbols := r.symbols.insertNew id reference,
           byReference := r.byReference.insertNew reference id }

/-- The reference of a symbol. -/
def ofSymbol (id : SymbolId) : String × References :=
  match r.symbols.find? id with
  | some reference => (reference, r)
  | none =>
    let (reference, r) := r.allocate
    (reference, r.bindSymbol reference id)

/-- The symbol of a reference. -/
def symbol? (reference : String) : Option SymbolId := r.byReference.find? reference

end References

end Stasis
