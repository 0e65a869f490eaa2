import Stasis.Json.Tree
import Stasis.Number.Reader

/-!
# Numbers of interchange texts

A number without fraction and exponent that fits 64 bits is an integer. Every other number is a
double, computed in few steps and not always the nearest: digits are collected in a significand of
64 bits for as long as they fit, and the significand is scaled by one power of ten.

* `scaleSignificand`: the scaling, which refuses a result that is not finite.
* `readJsonNumber`: the number of a lexeme.
-/

namespace Stasis

/-- The largest significand. -/
def significandLimit : Nat := 0xFFFFFFFFFFFFFFFF

/-- Digits collected so far: their value, and how many were left out. -/
structure Significand where
  value : Nat
  dropped : Nat := 0

/-- Adds a digit unless the significand would overflow, or has left out digits before. -/
def Significand.push (s : Significand) (c : Char) : Significand :=
  let next := s.value * 10 + (c.toNat - '0'.toNat)
  if s.dropped = 0 ∧ next ≤ significandLimit then { s with value := next }
  else { s with dropped := s.dropped + 1 }

/-- A power of ten up to 10³⁰⁸. -/
def powerOfTen (n : Nat) : Float := Number.nearest 1 n

/-- Divides by 10³⁰⁸ until the exponent is one that a single division can take. -/
def scaleDown : Nat → Float → Int → Float
  | 0, x, _ => x
  | steps + 1, x, e =>
    if -308 ≤ e then x / powerOfTen e.natAbs
    else if x == 0 then x
    else scaleDown steps (x / powerOfTen 308) (e + 308)

/-- A significand times a power of ten; nothing if the result is not finite. -/
def scaleSignificand (value : Nat) (e : Int) : Option Float :=
  let x := Number.ofInt value
  if e < 0 then some (scaleDown (e.natAbs / 308 + 1) x e)
  else if e ≤ 308 then
    let y := x * powerOfTen e.toNat
    if y.isInf then none else some y
  else if value = 0 then some x
  else none

/-- The parts of a number. -/
structure NumberLexeme where
  negative : Bool
  whole : List Char
  fraction : List Char
  /-- The exponent with its sign; absent if none is written. -/
  exponent : Option (Bool × List Char)

/-- The largest exponent that is computed; beyond it a number vanishes or is refused. -/
def exponentLimit : Nat := 0x7FFFFFFF

/-- The magnitude of a number with a fraction, an exponent or too many digits. Digits left out
before the point raise the exponent, those behind it count for nothing. -/
def NumberLexeme.magnitude (l : NumberLexeme) (whole : Significand) : Option Float :=
  let all := l.fraction.foldl Significand.push ⟨whole.value, 0⟩
  let kept := l.fraction.length - all.dropped
  let start : Int := (whole.dropped : Int) - kept
  match l.exponent with
  | none => scaleSignificand all.value start
  | some (negative, ds) =>
    let n := Number.decimalValue ds
    if exponentLimit < n then
      if all.value ≠ 0 ∧ !negative then none else some 0
    else scaleSignificand all.value (if negative then start - n else start + n)

/-- The number of a lexeme; nothing if it is beyond the doubles. -/
def readJsonNumber (l : NumberLexeme) : Option JsonNumber :=
  let whole := l.whole.foldl Significand.push ⟨0, 0⟩
  if l.fraction.isEmpty && l.exponent.isNone && whole.dropped == 0 then
    if !l.negative then some (.int whole.value)
    else if whole.value ≠ 0 ∧ whole.value ≤ (1 <<< 63) then some (.int (-whole.value))
    else some (.double (-(Number.ofInt whole.value)))
  else (l.magnitude whole).map fun x => .double (if l.negative then -x else x)

end Stasis
