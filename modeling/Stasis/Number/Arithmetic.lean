import Stasis.Number.Dyadic

/-!
# Arithmetic of scripts

Numbers are doubles, and big integers have 128 bits.

* `remainder`, `power`: the two operations on doubles that differ from common ones.
* `toInt32`, `bitwise`: bits of numbers and of big integers.
* `fitsWide`, `wrapWide`: the range of big integers.
-/

namespace Stasis.Number

/-- The remainder of a division that is cut towards zero. It has the sign of the dividend and is
exact. -/
def remainder (x y : Float) : Float :=
  if x.isNaN || y.isNaN || x.isInf || y == 0 then 0 / 0
  else if y.isInf then x
  else
    let a := Dyadic.ofFloat x
    let b := Dyadic.ofFloat y
    let e := min a.exponent b.exponent
    let r := (a.mantissa <<< (a.exponent - e).toNat) % (b.mantissa <<< (b.exponent - e).toNat)
    let magnitude := Float.scaleB (Float.ofNat r) e
    if isNegative x then -magnitude else magnitude

/-- A power of a double. No power with an infinite exponent is defined for one. -/
def power (base exponent : Float) : Float :=
  if exponent.isNaN || (base.abs == 1 && exponent.isInf) then 0 / 0 else base ^ exponent

/-- The integer part of a double, cut to a signed integer of 32 bits. -/
def toInt32 (x : Float) : Int :=
  if x.isFinite then (BitVec.ofInt 32 (integerPart x)).toInt else 0

/-- The integer part of a double, cut to a byte. -/
def toByte (x : Float) : UInt8 :=
  if x.isFinite then (truncate Int64.minValue.toInt Int64.maxValue.toInt x % 256).toNat.toUInt8 else 0

/-- The integer part of a double as a double. -/
def truncated (x : Float) : Float :=
  if x < 0 then x.ceil else x.floor

/-- An operation on the bits of signed integers. -/
def bitwise (width : Nat) (op : BitVec width → BitVec width → BitVec width) (a b : Int) : Int :=
  (op (BitVec.ofInt width a) (BitVec.ofInt width b)).toInt

/-- The smallest big integer. -/
def minWide : Int := (BitVec.intMin 128).toInt

/-- The largest big integer. -/
def maxWide : Int := (BitVec.intMax 128).toInt

/-- An integer that has a place among the big integers. -/
def fitsWide (n : Int) : Bool := decide (minWide ≤ n ∧ n ≤ maxWide)

/-- The integer cut to 128 bits. -/
def wrapWide (n : Int) : Int := (BitVec.ofInt 128 n).toInt

end Stasis.Number
