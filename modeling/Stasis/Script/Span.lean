/-!
# Places in a script

* `Span`: a range of byte offsets with the line and column of its start.
* `Position`: how far a reader has come, enough to give the span of what follows.

Offsets are as large as a script. Lines and columns are kept in 32 bits: behind 2³² line feeds, or
2³² bytes of one line, they begin again.
-/

namespace Stasis.Script

/-- A range of byte offsets, with the line and column (both from 1) of its start. -/
structure Span where
  start : Nat
  stop : Nat
  line : UInt32
  column : UInt32
deriving DecidableEq, Repr

/-- A line or column is read as a number. -/
instance coeUInt32Nat : Coe UInt32 Nat := ⟨UInt32.toNat⟩

/-- The span of nothing, before the first token. -/
def Span.none : Span := ⟨0, 0, 0, 0⟩

instance : Inhabited Span := ⟨Span.none⟩

/-- From the start of one span to the end of another. -/
def Span.to (first last : Span) : Span :=
  { first with stop := last.stop }

/-- A place between two characters of a script. -/
structure Position where
  offset : Nat
  line : UInt32
  lineStart : Nat
deriving DecidableEq, Repr

/-- The place before the first character. -/
def Position.first : Position := ⟨0, 1, 0⟩

/-- The place behind a character. A line feed begins a line. -/
def Position.step (p : Position) (c : Char) : Position :=
  let offset := p.offset + c.utf8Size
  if c = '\n' then ⟨offset, p.line + 1, offset⟩ else { p with offset }

/-- The place behind a run of characters. -/
def Position.advance (p : Position) (cs : List Char) : Position :=
  cs.foldl Position.step p

/-- The column of an offset in the line of `p`, 1 at the line's start. -/
def Position.columnAt (p : Position) (offset : Nat) : UInt32 :=
  .ofNat (offset - p.lineStart) + 1

/-- The empty span at `offset`, in the line of `p`. -/
def Position.pointAt (p : Position) (offset : Nat) : Span :=
  ⟨offset, offset, p.line, p.columnAt offset⟩

/-- The span from `p` to `q`. -/
def Position.spanTo (p q : Position) : Span :=
  ⟨p.offset, q.offset, p.line, p.columnAt p.offset⟩

@[simp] theorem Position.advance_nil (p : Position) : p.advance [] = p := rfl

@[simp] theorem Position.advance_cons (p : Position) (c : Char) (cs : List Char) :
    p.advance (c :: cs) = (p.step c).advance cs := rfl

theorem Position.advance_append (p : Position) (cs ds : List Char) :
    p.advance (cs ++ ds) = (p.advance cs).advance ds := by
  simp [Position.advance]

end Stasis.Script
