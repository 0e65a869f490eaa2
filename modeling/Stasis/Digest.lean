import Stasis.Text.Hex

/-!
# The SHA-256 digest

The constants of the digest are the fractions of roots of primes, and are computed as such.

* `Digest.fraction`: the first 32 bits behind the point of a root.
* `Digest.pad`: the message with its end mark and its length, cut into blocks.
* `Digest.sha256`: the digest of a text, in hexadecimal.
-/

namespace Stasis.Digest

/-- The largest number below `2 ^ 36` whose power `k` is at most `n`. -/
def root (k n : Nat) : Nat :=
  (List.range 36).foldr (fun i r => if (r + (1 <<< i)).pow k ≤ n then r + (1 <<< i) else r) 0

/-- The first 32 bits behind the point of the root of order `k`. -/
def fraction (k n : Nat) : UInt32 := (root k (n <<< (32 * k))).toUInt32

/-- The first 64 primes. -/
def primes : List Nat :=
  (List.range 312).filter fun n => decide (2 ≤ n) && (List.range n).all fun d => d < 2 || n % d != 0

/-- One constant for each round. -/
def roundConstants : List UInt32 := primes.map (fraction 3)

/-- The eight words on which the digest works. -/
structure State where
  (a b c d e f g h : UInt32)
deriving DecidableEq, Repr

/-- The state before the first block. -/
def State.start : State where
  a := fraction 2 2
  b := fraction 2 3
  c := fraction 2 5
  d := fraction 2 7
  e := fraction 2 11
  f := fraction 2 13
  g := fraction 2 17
  h := fraction 2 19

/-- The words of a state. -/
def State.words (s : State) : List UInt32 := [s.a, s.b, s.c, s.d, s.e, s.f, s.g, s.h]

/-- Adds two states word by word. -/
def State.add (s t : State) : State :=
  ⟨s.a + t.a, s.b + t.b, s.c + t.c, s.d + t.d, s.e + t.e, s.f + t.f, s.g + t.g, s.h + t.h⟩

/-- Turns a word to the right. -/
def rotate (x n : UInt32) : UInt32 := (x >>> n) ||| (x <<< (32 - n))

/-- One round, with its constant and its word of the schedule added up. -/
def round (s : State) (k : UInt32) : State :=
  let choice := (s.e &&& s.f) ^^^ ((~~~ s.e) &&& s.g)
  let majority := (s.a &&& s.b) ^^^ (s.a &&& s.c) ^^^ (s.b &&& s.c)
  let t := s.h + (rotate s.e 6 ^^^ rotate s.e 11 ^^^ rotate s.e 25) + choice + k
  let u := (rotate s.a 2 ^^^ rotate s.a 13 ^^^ rotate s.a 22) + majority
  ⟨t + u, s.a, s.b, s.c, s.d + t, s.e, s.f, s.g⟩

/-- The next word of a schedule, from the words so far. -/
def nextWord (w : Array UInt32) : UInt32 :=
  let back (n : Nat) : UInt32 := w.getD (w.size - n) 0
  let x := back 15
  let y := back 2
  back 16 + (rotate x 7 ^^^ rotate x 18 ^^^ (x >>> 3)) + back 7
    + (rotate y 17 ^^^ rotate y 19 ^^^ (y >>> 10))

/-- The 64 words of a block. -/
def schedule (block : List UInt32) : List UInt32 :=
  ((List.range 48).foldl (fun w _ => w.push (nextWord w)) block.toArray).toList

/-- Works one block into a state. -/
def compress (s : State) (block : List UInt32) : State :=
  s.add ((List.zipWith (· + ·) roundConstants (schedule block)).foldl round s)

/-- The bytes of a number, the most significant first. -/
def bigEndian (width n : Nat) : List UInt8 :=
  (List.range width).reverse.map fun i => (n >>> (8 * i)).toUInt8

/-- Joins each four bytes to a word. -/
def wordsOf : List UInt8 → List UInt32
  | a :: b :: c :: d :: rest =>
    (a.toUInt32 <<< 24 ||| b.toUInt32 <<< 16 ||| c.toUInt32 <<< 8 ||| d.toUInt32) :: wordsOf rest
  | _ => []

/-- A message with an end mark, zeros up to a whole block, and its length in bits. -/
def pad (bytes : List UInt8) : List UInt8 :=
  let size := bytes.length
  bytes ++ 0x80 :: (List.replicate ((119 - size % 64) % 64) 0 ++ bigEndian 8 (8 * size))

/-- Works all blocks of 16 words into a state. -/
def absorb (s : State) (words : List UInt32) : State :=
  if _h : words.drop 15 = [] then s else absorb (compress s (words.take 16)) (words.drop 16)
termination_by words.length
decreasing_by
  have : words.length ≠ 0 := by rintro e; simp_all
  simp only [List.length_drop]
  omega

/-- The digest of a text, in hexadecimal. -/
def sha256 (s : String) : String :=
  let state := absorb .start (wordsOf (pad s.toUTF8.toList))
  Text.hexOfBytes (state.words.flatMap fun w => bigEndian 4 w.toNat)

end Stasis.Digest
