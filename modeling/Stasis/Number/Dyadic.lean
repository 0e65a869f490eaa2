/-!
# Doubles as exact values

A finite double is a natural number times a power of two, and every question about its digits is
a question about naturals.

* `Dyadic.ofFloat`: the magnitude of a finite double, decoded from its bits.
* `truncate`: the integer part of a double, towards zero, kept within two bounds.
* `isWhole`: a finite double without a fraction.
-/

namespace Stasis.Number

/-- A finite value `mantissa · 2 ^ exponent`. -/
structure Dyadic where
  mantissa : Nat
  exponent : Int
  /-- The next smaller double is half as far away as the next larger one. -/
  closeBelow : Bool
deriving DecidableEq, Repr

/-- The sign bit, which also tells the two zeros apart. -/
def isNegative (x : Float) : Bool :=
  x.toBits >>> 63 == 1

/-- The magnitude of a finite double. -/
def Dyadic.ofFloat (x : Float) : Dyadic :=
  let bits := x.toBits
  let scale := ((bits >>> 52) &&& 0x7FF).toNat
  let fraction := (bits &&& 0xFFFFFFFFFFFFF).toNat
  if scale = 0 then ⟨fraction, -1074, false⟩
  else ⟨(1 <<< 52) + fraction, (scale : Int) - 1075, fraction == 0 && decide (1 < scale)⟩

/-- The magnitude without its fraction. -/
def Dyadic.floor (d : Dyadic) : Nat :=
  if 0 ≤ d.exponent then d.mantissa <<< d.exponent.toNat
  else d.mantissa >>> (-d.exponent).toNat

/-- No fraction is lost by `floor`. -/
def Dyadic.isWhole (d : Dyadic) : Bool :=
  0 ≤ d.exponent || d.mantissa % (1 <<< (-d.exponent).toNat) == 0

/-- A finite double without a fraction. -/
def isWhole (x : Float) : Bool :=
  x.isFinite && (Dyadic.ofFloat x).isWhole

/-- The integer part of a double, towards zero; for a finite one without any limit. -/
def integerPart (x : Float) : Int :=
  let n : Int := (Dyadic.ofFloat x).floor
  if isNegative x then -n else n

/-- The integer part of a double, kept between `lo` and `hi`; zero for a NaN. -/
def truncate (lo hi : Int) (x : Float) : Int :=
  if x.isNaN then 0
  else if x.isInf then if isNegative x then lo else hi
  else max lo (min hi (integerPart x))

/-- The double nearest to an integer. -/
def ofInt (n : Int) : Float :=
  let x := Float.ofScientific n.natAbs false 0
  if n < 0 then -x else x

example : truncate 0 255 (-1.5) = 0 := by decide +kernel

example : truncate (-10) 10 (-1.5) = -1 := by decide +kernel

example : isWhole 1e22 = true := by decide +kernel

end Stasis.Number
