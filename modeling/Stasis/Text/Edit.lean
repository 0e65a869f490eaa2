import Stasis.Text.Bytes

/-!
# Editing a text

Edits are given by byte offsets of the text as it was, in increasing order.

* `splitBytes`: a text cut at a byte offset.
* `applyEdits`: the text with every edit made.
-/

namespace Stasis.Text

/-- New text for the part from `offset` to `stop`; an insertion if the part is empty. -/
structure Edit where
  offset : Nat
  stop : Nat
  text : List Char

/-- Cuts a text behind as many whole characters as fit into `n` bytes. -/
def splitBytes : Nat → List Char → List Char × List Char
  | _, [] => ([], [])
  | n, c :: cs =>
    if c.utf8Size ≤ n then
      let (before, after) := splitBytes (n - c.utf8Size) cs
      (c :: before, after)
    else ([], c :: cs)

/-- Makes edits in a text that begins at offset `cursor`, up to offset `stop`. -/
def applyEdits (stop : Nat) : List Edit → Nat → List Char → List Char
  | [], cursor, cs => (splitBytes (stop - cursor) cs).1
  | e :: edits, cursor, cs =>
    let (kept, rest) := splitBytes (e.offset - cursor) cs
    let here := max cursor e.offset
    let rest := (splitBytes (e.stop - here) rest).2
    kept ++ e.text ++ applyEdits stop edits (max here e.stop) rest

/-- The part of a text from `start` to `stop` with the edits made. -/
def editSlice (cs : List Char) (start stop : Nat) (edits : List Edit) : List Char :=
  applyEdits stop edits start (splitBytes start cs).2

end Stasis.Text
