/-!
# Byte offsets in a text

Places in a source text are byte offsets of its UTF-8 form. A text is a list of characters here,
and these functions count and cut it in bytes.

* `byteLength`: the number of bytes.
* `takeBytes?`, `dropBytes?`: cutting at a byte offset, which has to be a character boundary.
* `slice`: the part between two offsets.
-/

namespace Stasis.Text

/-- The number of bytes of a text. -/
def byteLength : List Char → Nat
  | [] => 0
  | c :: cs => c.utf8Size + byteLength cs

/-- The first `n` bytes, if they are there and end at a character boundary. -/
def takeBytes? : Nat → List Char → Option (List Char)
  | 0, _ => some []
  | _ + 1, [] => none
  | n + 1, c :: cs =>
    if c.utf8Size ≤ n + 1 then (takeBytes? (n + 1 - c.utf8Size) cs).map (c :: ·) else none
termination_by _ cs => cs.length

/-- All but the first `n` bytes, if they are there and end at a character boundary. -/
def dropBytes? : Nat → List Char → Option (List Char)
  | 0, cs => some cs
  | _ + 1, [] => none
  | n + 1, c :: cs =>
    if c.utf8Size ≤ n + 1 then dropBytes? (n + 1 - c.utf8Size) cs else none
termination_by _ cs => cs.length

/-- The part from offset `start` to offset `stop`; empty unless both are boundaries in order. -/
def slice (cs : List Char) (start stop : Nat) : List Char :=
  if start ≤ stop then
    ((dropBytes? start cs).bind (takeBytes? (stop - start))).getD []
  else []

@[simp] theorem byteLength_nil : byteLength [] = 0 := rfl

@[simp] theorem byteLength_cons (c : Char) (cs : List Char) :
    byteLength (c :: cs) = c.utf8Size + byteLength cs := rfl

@[simp] theorem byteLength_append (cs ds : List Char) :
    byteLength (cs ++ ds) = byteLength cs + byteLength ds := by
  induction cs with
  | nil => simp
  | cons c cs ih => simp [ih, Nat.add_assoc]

end Stasis.Text
