import Stasis.Number.Dyadic

/-!
# Reading numbers

* `nearest`: the double nearest to a decimal, of any length.
* `readDouble`: the text of a double; a sign, a missing whole part or fraction, an exponent and
  the names of the special values are allowed.
* `readInteger`: a signed integer in a given base, within two bounds.
-/

namespace Stasis.Number

/-- The double nearest to `digits · 10 ^ exponent`, ties to even. A decimal that is certain to
overflow or to vanish is not computed. -/
def nearest (digits : Nat) (exponent : Int) : Float :=
  if digits = 0 then 0
  else
    let size : Int := (Nat.toDigits 10 digits).length + exponent
    if 310 < size then 1 / 0
    else if size < -330 then 0
    else Float.ofScientific digits (decide (exponent < 0)) exponent.natAbs

/-- The value of a digit in bases up to 36. -/
def digitValue? (c : Char) : Option Nat :=
  if c.isDigit then some (c.toNat - '0'.toNat)
  else if 'a' ≤ c ∧ c ≤ 'z' then some (c.toNat - 'a'.toNat + 10)
  else if 'A' ≤ c ∧ c ≤ 'Z' then some (c.toNat - 'A'.toNat + 10)
  else none

/-- The value of a run of digits on top of `acc`, if every one is a digit of the base. -/
def digitsFrom? (base : Nat) : Nat → List Char → Option Nat
  | acc, [] => some acc
  | acc, c :: cs =>
    match digitValue? c with
    | some d => if d < base then digitsFrom? base (acc * base + d) cs else none
    | none => none

/-- The value of a non-empty run of digits. -/
def digits? (base : Nat) (cs : List Char) : Option Nat :=
  if cs.isEmpty then none else digitsFrom? base 0 cs

/-- Digits in the given base, possibly behind a plus sign, with a value of at most `hi`. -/
def readNatural (base hi : Nat) (cs : List Char) : Option Nat :=
  let body := match cs with
    | '+' :: rest => rest
    | _ => cs
  (digits? base body).filter (· ≤ hi)

/-- Digits in the given base, possibly behind a sign, with a value from `lo` to `hi`. -/
def readInteger (base : Nat) (lo hi : Int) (cs : List Char) : Option Int :=
  let value : Option Int := match cs with
    | '+' :: rest => (digits? base rest).map Int.ofNat
    | '-' :: rest => (digits? base rest).map fun n => -(n : Int)
    | _ => (digits? base cs).map Int.ofNat
  value.filter fun n => decide (lo ≤ n ∧ n ≤ hi)

/-- The value of a run of decimal digits; other characters count as nothing. -/
def decimalValue (cs : List Char) : Nat :=
  (digitsFrom? 10 0 cs).getD 0

/-- The exponent behind a decimal, `some 0` where none is written. -/
def readExponent : List Char → Option Int
  | [] => some 0
  | c :: cs =>
    if c == 'e' || c == 'E' then
      match cs with
      | '+' :: rest => (digits? 10 rest).map Int.ofNat
      | '-' :: rest => (digits? 10 rest).map fun n => -(n : Int)
      | _ => (digits? 10 cs).map Int.ofNat
    else none

/-- A decimal without a sign. -/
def readMagnitude (cs : List Char) : Option Float :=
  let whole := cs.takeWhile Char.isDigit
  let rest := cs.dropWhile Char.isDigit
  let (fraction, tail) := match rest with
    | '.' :: more => (more.takeWhile Char.isDigit, more.dropWhile Char.isDigit)
    | _ => ([], rest)
  if whole.isEmpty && fraction.isEmpty then none
  else (readExponent tail).map fun e =>
    nearest (decimalValue (whole ++ fraction)) (e - fraction.length)

/-- The names of the special values, in any case. -/
def readSpecial (cs : List Char) : Option Float :=
  let name := String.ofList (cs.map Char.toLower)
  if name == "inf" || name == "infinity" then some (1 / 0)
  else if name == "nan" then some (0 / 0)
  else none

/-- The text of a double. -/
def readDouble (cs : List Char) : Option Float :=
  let unsigned (body : List Char) := (readMagnitude body).orElse fun _ => readSpecial body
  match cs with
  | '-' :: rest => (unsigned rest).map (- ·)
  | '+' :: rest => unsigned rest
  | _ => unsigned cs

example : readInteger 16 (-128) 127 "7f".toList = some 127 := by decide +kernel

example : (readDouble ".5".toList).map Float.toBits = some (0.5 : Float).toBits := by
  decide +kernel

example : (readDouble ".".toList).isNone = true := by decide +kernel

end Stasis.Number
