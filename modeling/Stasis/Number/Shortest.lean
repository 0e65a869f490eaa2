import Stasis.Number.Dyadic

/-!
# The shortest decimal that reads back

Many decimals round to one double. The text of a double shows one with the fewest digits, and of
those the nearest to the value.

* `Dyadic.Covers`: a decimal lies among the reals that round to the value.
* `Dyadic.shortest`: the grids of one, two, … digits are tried in turn; on each only the two
  neighbours of the value can be nearest, so the first grid with a hit decides.
-/

namespace Stasis.Number

/-- The value `digits · 10 ^ exponent`. -/
structure Decimal where
  digits : Nat
  exponent : Int
deriving DecidableEq, Repr

/-- Which of two equally near decimals is taken. -/
inductive Tie where
  | toEven
  | up
deriving DecidableEq, Repr

/-- Compares `a · 10 ^ i` with `b · 2 ^ j`. -/
def compareScaled (a : Nat) (i : Int) (b : Nat) (j : Int) : Ordering :=
  compare ((a * Nat.pow 10 i.toNat) <<< (-j).toNat) ((b * Nat.pow 10 (-i).toNat) <<< j.toNat)

/-- The decimal rounds to the value: it lies between the midpoints to the two neighbours, and a
midpoint itself rounds to the value with the even mantissa. -/
def Dyadic.Covers (x : Dyadic) (d : Decimal) : Bool :=
  -- midpoints in quarters of a unit; the neighbour below a power of two is closer
  let low := 4 * x.mantissa - (if x.closeBelow then 1 else 2)
  let high := 4 * x.mantissa + 2
  let closed := x.mantissa % 2 == 0
  let fromLow := compareScaled d.digits d.exponent low (x.exponent - 2)
  let fromHigh := compareScaled d.digits d.exponent high (x.exponent - 2)
  (fromLow == .gt || (closed && fromLow == .eq)) && (fromHigh == .lt || (closed && fromHigh == .eq))

/-- The least `k` from `k` on, within `steps`, such that the value is below `10 ^ k`. -/
def Dyadic.scaleFrom (x : Dyadic) : Nat → Int → Int
  | 0, k => k
  | steps + 1, k =>
    if compareScaled 1 k x.mantissa x.exponent == .gt then k else x.scaleFrom steps (k + 1)

/-- The least `k` such that the value is below `10 ^ k`. The start is from the binary logarithm,
times 0.30103, and at most one too small or one too large is corrected. -/
def Dyadic.scale (x : Dyadic) : Int :=
  let log := (x.mantissa.log2 : Int) + x.exponent
  x.scaleFrom 4 (Int.fdiv (log * 30103) 100000 - 1)

/-- The grid point at or below the value, for the grid of multiples of `10 ^ j`. -/
def Dyadic.floorOnGrid (x : Dyadic) (j : Int) : Nat :=
  ((x.mantissa * Nat.pow 10 (-j).toNat) <<< x.exponent.toNat) /
    (Nat.pow 10 j.toNat <<< (-x.exponent).toNat)

/-- The neighbour of the value on the grid of multiples of `10 ^ j` that rounds to the value and
is the nearer of the two, if one does. -/
def Dyadic.onGrid? (x : Dyadic) (tie : Tie) (j : Int) : Option Decimal :=
  let below := x.floorOnGrid j
  let above := below + 1
  match x.Covers ⟨below, j⟩, x.Covers ⟨above, j⟩ with
  | false, false => none
  | true, false => some ⟨below, j⟩
  | false, true => some ⟨above, j⟩
  | true, true =>
    -- the value against the middle between the two
    match compareScaled (below + above) j (2 * x.mantissa) x.exponent with
    | .gt => some ⟨below, j⟩
    | .lt => some ⟨above, j⟩
    | .eq =>
      match tie with
      | .up => some ⟨above, j⟩
      | .toEven => some ⟨if below % 2 = 0 then below else above, j⟩

/-- Moves trailing zeros of the digits into the exponent. -/
def Decimal.strip (d : Decimal) : Nat → Decimal
  | 0 => d
  | steps + 1 =>
    if d.digits ≠ 0 ∧ d.digits % 10 = 0 then Decimal.strip ⟨d.digits / 10, d.exponent + 1⟩ steps else d

/-- The decimal with the fewest digits that rounds to the value. Seventeen digits always do. -/
def Dyadic.shortest (x : Dyadic) (tie : Tie) : Decimal :=
  if x.mantissa = 0 then ⟨0, 0⟩
  else
    let k := x.scale
    match (List.range 17).findSome? fun n => x.onGrid? tie (k - (n + 1 : Nat)) with
    | some d => d.strip 18
    | none => ⟨x.floorOnGrid (k - 17), k - 17⟩

example : (Dyadic.ofFloat 0.1).shortest .up = ⟨1, -1⟩ := by decide +kernel

example : (Dyadic.ofFloat (0.1 + 0.2)).shortest .up = ⟨30000000000000004, -17⟩ := by
  decide +kernel

example : (Dyadic.ofFloat 5e-324).shortest .up = ⟨5, -324⟩ := by decide +kernel

example : (Dyadic.ofFloat 1e23).shortest .up = ⟨1, 23⟩ := by decide +kernel

example : (Dyadic.ofFloat 2.98023223876953125e-8).shortest .up = ⟨29802322387695313, -24⟩ := by
  decide +kernel

end Stasis.Number
