import Stasis.Number.Shortest

/-!
# The text of a double

The digits of a double are `Dyadic.shortest`; a `Layout` says how they are written.

* `Layout.render`: sign, digits, point and exponent of a finite double.
* `plain`: never an exponent.
* `scientific`: always one.
* `interchange`: the numbers of interchange texts, with an exponent outside 10⁻⁵ … 10¹⁶.
* `scriptText`: what a script sees when a number becomes a text.
-/

namespace Stasis.Number

/-- How the digits of a double are written. -/
structure Layout where
  /-- The exponents of the leading digit that are written without a power of ten. -/
  positional : Int → Bool
  /-- A whole number keeps `.0`. -/
  pointZero : Bool
  /-- Which of two equally short and equally near decimals is shown. -/
  tie : Tie

/-- The digits of a natural number. -/
def digitsOf (n : Nat) : List Char :=
  Nat.toDigits 10 n

/-- An exponent with its sign, as in `e+21`. -/
def exponentText (e : Int) : List Char :=
  'e' :: (if e < 0 then '-' else '+') :: digitsOf e.natAbs

/-- Digits with the point placed for a leading digit of weight `10 ^ e`. -/
def positionalText (pointZero : Bool) (ds : List Char) (e : Int) : List Char :=
  if e < 0 then '0' :: '.' :: (List.replicate (-e - 1).toNat '0' ++ ds)
  else
    let whole := e.toNat + 1
    if ds.length ≤ whole then
      ds ++ List.replicate (whole - ds.length) '0' ++ (if pointZero then ['.', '0'] else [])
    else ds.take whole ++ '.' :: ds.drop whole

/-- Digits with one digit before the point and the exponent `e` behind them. -/
def scientificText (ds : List Char) (e : Int) : List Char :=
  match ds with
  | [] => []
  | [d] => d :: exponentText e
  | d :: more => d :: '.' :: (more ++ exponentText e)

/-- The text of a decimal. -/
def Layout.ofDecimal (l : Layout) (d : Decimal) : List Char :=
  let ds := digitsOf d.digits
  let e := d.exponent + (ds.length : Int) - 1
  if l.positional e then positionalText l.pointZero ds e else scientificText ds e

/-- The text of a finite double. -/
def Layout.render (l : Layout) (x : Float) : String :=
  let magnitude := l.ofDecimal ((Dyadic.ofFloat x).shortest l.tie)
  String.ofList (if isNegative x then '-' :: magnitude else magnitude)

/-- Never an exponent. -/
def plain : Layout :=
  ⟨fun _ => true, false, .up⟩

/-- Always an exponent. -/
def scientific : Layout :=
  ⟨fun _ => false, false, .up⟩

/-- Numbers of an interchange text: positional for leading digits from 10⁻⁵ to 10¹⁵, and a
fraction always, so that a reader can tell them from integers. -/
def interchange : Layout :=
  ⟨fun e => decide (-5 ≤ e ∧ e ≤ 15), true, .toEven⟩

/-- The text of an integer. -/
def integerText (n : Int) : String :=
  String.ofList (if n < 0 then '-' :: digitsOf n.natAbs else digitsOf n.natAbs)

/-- A double as it stands in a message: all its digits, and `inf` for an infinity. -/
def messageText (x : Float) : String :=
  if x.isNaN then "NaN"
  else if x.isInf then if isNegative x then "-inf" else "inf"
  else plain.render x

/-- What a script sees when a number becomes a text. Whole numbers below 10²¹ show every digit of
their value, larger ones the shortest digits and an exponent; one zero hides its sign. -/
def scriptText (x : Float) : String :=
  if x.isNaN then "NaN"
  else if x.isInf then if isNegative x then "-Infinity" else "Infinity"
  else if x == 0 then "0"
  else if x.abs < 1e21 then
    if isWhole x then integerText (integerPart x) else plain.render x
  else scientific.render x

example : scriptText 1e21 = "1e+21" := by decide +kernel

example : scriptText 590295810358705651712 = "590295810358705651712" := by decide +kernel

example : scriptText 1e-7 = "0.0000001" := by decide +kernel

example : interchange.render 1e16 = "1e+16" := by decide +kernel

example : interchange.render 1e15 = "1000000000000000.0" := by decide +kernel

example : interchange.render 1.5e-6 = "1.5e-6" := by decide +kernel

end Stasis.Number
