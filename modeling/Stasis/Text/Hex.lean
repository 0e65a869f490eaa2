import Stasis.Number.Reader
import Stasis.Text.Shown

/-!
# Bytes in hexadecimal

* `hexOfBytes`: two digits for each byte.
* `bytesOfHex`: the bytes of such a text, or what is wrong with it.
-/

namespace Stasis.Text

/-- The two digits of a byte. -/
def hexOfByte (b : UInt8) : List Char :=
  [Nat.digitChar (b.toNat / 16), Nat.digitChar (b.toNat % 16)]

/-- Two digits for each byte. -/
def hexOfBytes (bytes : List UInt8) : String :=
  String.ofList (bytes.flatMap hexOfByte)

/-- Why a text is not hexadecimal. Positions count its bytes. -/
inductive HexError where
  | oddLength
  | badDigit (byte : UInt8) (position : Nat)
deriving DecidableEq, Repr

/-- The wording of a fault. -/
def HexError.message : HexError → String
  | oddLength => "Odd number of digits"
  | badDigit byte position =>
    "Invalid character " ++ shownChar (Char.ofNat byte.toNat) ++ " at position " ++ toString position

/-- The value of a digit. -/
def readHexDigit (position : Nat) (byte : UInt8) : Except HexError UInt8 :=
  match (Number.digitValue? (Char.ofNat byte.toNat)).filter (· < 16) with
  | some d => .ok d.toUInt8
  | none => .error (.badDigit byte position)

/-- The bytes of pairs of digits from a position on. -/
def bytesOfDigits (position : Nat) : List UInt8 → Except HexError (List UInt8)
  | [] => .ok []
  | [_] => .error .oddLength
  | a :: b :: rest => do
    let high ← readHexDigit position a
    let low ← readHexDigit (position + 1) b
    return (high <<< 4 ||| low) :: (← bytesOfDigits (position + 2) rest)

/-- The bytes that a text shows. -/
def bytesOfHex (s : String) : Except HexError (List UInt8) :=
  let digits := s.toUTF8.toList
  if digits.length % 2 = 1 then .error .oddLength else bytesOfDigits 0 digits

end Stasis.Text
