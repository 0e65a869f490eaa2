/-!
# Sets of code points

A Unicode property is data: a table of closed ranges in increasing order.

* `RangeSet.contains`: membership, by bisection.
-/

namespace Stasis.Text

/-- Disjoint closed ranges of code points, in increasing order. -/
structure RangeSet where
  ranges : Array (Nat × Nat)

/-- Bisects the ranges with index from `lo` up to `hi`; `steps` bounds the halvings. -/
def RangeSet.search (s : RangeSet) (n : Nat) : Nat → Nat → Nat → Bool
  | 0, _, _ => false
  | steps + 1, lo, hi =>
    if lo < hi then
      let mid := (lo + hi) / 2
      match s.ranges[mid]? with
      | none => false
      | some (first, last) =>
        if n < first then s.search n steps lo mid
        else if last < n then s.search n steps (mid + 1) hi
        else true
    else false

/-- Membership of a code point. -/
def RangeSet.contains (s : RangeSet) (n : Nat) : Bool :=
  s.search n s.ranges.size 0 s.ranges.size

end Stasis.Text
