import Mathlib
import Stasis.Text.Edit

/-!
# Cutting a text and putting texts between its parts

An offset of a text counts bytes, so it may fall into the middle of a character. Where a text is cut at
boundaries only, the parts make up the whole again, and so they do with other texts between them.

* `IsBoundary`: an offset that lies between two characters.
* `slice_append_slice`: neighbouring parts of a text make up a part.
* `weave`: a text cut at the offsets of some marks, each mark standing where it cuts.
* `kept_weave`, `inserted_weave`: what a woven text is made of.
* `weave_append`: a woven text is one of what stands before a mark and of what stands behind.
* `applyEdits_insertions`: making insertions in a text weaves it.
-/

namespace Stasis.Text

variable {ι : Type} {cs xs ys zs : List Char} {a b c n : ℕ}

/-! ## Boundaries -/

/-- The offset does not lie inside a character of the text, or behind its end. -/
def IsBoundary (cs : List Char) (n : ℕ) : Prop :=
  ∃ before after, cs = before ++ after ∧ byteLength before = n

theorem isBoundary_zero (cs : List Char) : IsBoundary cs 0 := ⟨[], cs, rfl, rfl⟩

theorem isBoundary_length (cs : List Char) : IsBoundary cs (byteLength cs) :=
  ⟨cs, [], (List.append_nil cs).symm, rfl⟩

theorem IsBoundary.le (h : IsBoundary cs n) : n ≤ byteLength cs := by
  obtain ⟨before, after, rfl, rfl⟩ := h
  rw [byteLength_append]
  exact Nat.le_add_right _ _

/-- Of two beginnings of one text, the one with fewer bytes is a beginning of the other. -/
theorem exists_append_of_byteLength_le {ws : List Char} (h : xs ++ ys = zs ++ ws)
    (hle : byteLength xs ≤ byteLength zs) : ∃ between, zs = xs ++ between := by
  induction xs generalizing zs with
  | nil => exact ⟨zs, rfl⟩
  | cons d xs ih =>
    cases zs with
    | nil =>
      have hd := d.utf8Size_pos
      rw [byteLength_cons, byteLength_nil] at hle
      omega
    | cons e zs =>
      rw [List.cons_append, List.cons_append, List.cons.injEq] at h
      obtain ⟨rfl, h⟩ := h
      rw [byteLength_cons, byteLength_cons] at hle
      obtain ⟨between, rfl⟩ := ih h (by omega)
      exact ⟨between, rfl⟩

/-- A text is made up of three parts by two boundaries in order. -/
theorem IsBoundary.split (ha : IsBoundary cs a) (hb : IsBoundary cs b) (hab : a ≤ b) :
    ∃ before between after, cs = before ++ between ++ after ∧ byteLength before = a ∧
      byteLength between = b - a := by
  obtain ⟨xs, ys, rfl, rfl⟩ := ha
  obtain ⟨zs, ws, h, rfl⟩ := hb
  obtain ⟨between, rfl⟩ := exists_append_of_byteLength_le h hab
  refine ⟨xs, between, ws, h, rfl, ?_⟩
  rw [byteLength_append]
  omega

/-! ## Parts of a text -/

theorem takeBytes?_append (xs ys : List Char) :
    takeBytes? (byteLength xs) (xs ++ ys) = some xs := by
  induction xs with
  | nil => rw [byteLength_nil, takeBytes?]
  | cons d xs ih =>
    obtain ⟨k, hk⟩ : ∃ k, byteLength (d :: xs) = k + 1 :=
      ⟨byteLength (d :: xs) - 1, by have := d.utf8Size_pos; rw [byteLength_cons]; omega⟩
    rw [byteLength_cons] at hk
    rw [byteLength_cons, hk, List.cons_append, takeBytes?, if_pos (by omega),
      show k + 1 - d.utf8Size = byteLength xs by omega, ih, Option.map_some]

theorem dropBytes?_append (xs ys : List Char) :
    dropBytes? (byteLength xs) (xs ++ ys) = some ys := by
  induction xs with
  | nil => rw [byteLength_nil, dropBytes?, List.nil_append]
  | cons d xs ih =>
    obtain ⟨k, hk⟩ : ∃ k, byteLength (d :: xs) = k + 1 :=
      ⟨byteLength (d :: xs) - 1, by have := d.utf8Size_pos; rw [byteLength_cons]; omega⟩
    rw [byteLength_cons] at hk
    rw [byteLength_cons, hk, List.cons_append, dropBytes?, if_pos (by omega),
      show k + 1 - d.utf8Size = byteLength xs by omega, ih]

/-- The part of a text between two boundaries. -/
theorem slice_eq (xs ys zs : List Char) :
    slice (xs ++ ys ++ zs) (byteLength xs) (byteLength xs + byteLength ys) = ys := by
  rw [slice, if_pos (Nat.le_add_right _ _), List.append_assoc, dropBytes?_append,
    Option.bind_some, Nat.add_sub_cancel_left, takeBytes?_append, Option.getD_some]

theorem slice_all (cs : List Char) : slice cs 0 (byteLength cs) = cs := by
  simpa using slice_eq [] cs []

/-- Neighbouring parts of a text make up a part. -/
theorem slice_append_slice (ha : IsBoundary cs a) (hb : IsBoundary cs b) (hc : IsBoundary cs c)
    (hab : a ≤ b) (hbc : b ≤ c) : slice cs a b ++ slice cs b c = slice cs a c := by
  obtain ⟨before, between, after, rfl, rfl, hbetween⟩ := ha.split hb hab
  obtain ⟨ws, rest, h, rfl⟩ := hc
  have hle : byteLength (before ++ between) ≤ byteLength ws := by
    rw [byteLength_append]
    omega
  obtain ⟨more, rfl⟩ := exists_append_of_byteLength_le h hle
  rw [List.append_assoc (before ++ between), List.append_cancel_left_eq] at h
  subst h
  have hb : b = byteLength before + byteLength between := by omega
  have hleft := slice_eq before between (more ++ rest)
  have hright := slice_eq (before ++ between) more rest
  have hwhole := slice_eq before (between ++ more) rest
  simp only [byteLength_append, List.append_assoc, Nat.add_assoc] at hleft hright hwhole ⊢
  rw [hb, hleft, hright, hwhole]

/-! ## Woven texts -/

/-- A part of a text into which others have been put: characters of its own, or what a mark stands
for. -/
inductive Part (ι : Type) where
  | kept (text : List Char)
  | inserted (mark : ι)

/-- What is left without the texts that have been put in. -/
def kept : List (Part ι) → List Char
  | [] => []
  | .kept text :: parts => text ++ kept parts
  | .inserted _ :: parts => kept parts

/-- The marks of the texts that have been put in. -/
def inserted : List (Part ι) → List ι
  | [] => []
  | .kept _ :: parts => inserted parts
  | .inserted mark :: parts => mark :: inserted parts

/-- The whole text, given what each mark stands for. -/
def shown (text : ι → List Char) : List (Part ι) → List Char
  | [] => []
  | .kept own :: parts => own ++ shown text parts
  | .inserted mark :: parts => text mark ++ shown text parts

/-- The text from the cursor to the stop, cut at the offsets of marks. -/
def weave (cs : List Char) (offset : ι → ℕ) (stop : ℕ) : ℕ → List ι → List (Part ι)
  | cursor, [] => [.kept (slice cs cursor stop)]
  | cursor, mark :: marks =>
    .kept (slice cs cursor (offset mark)) :: .inserted mark ::
      weave cs offset stop (offset mark) marks

/-- The marks cut the text from the cursor to the stop, in order and between characters. -/
structure IsCut (cs : List Char) (offset : ι → ℕ) (stop cursor : ℕ) (marks : List ι) : Prop where
  first : IsBoundary cs cursor
  last : IsBoundary cs stop
  le_stop : cursor ≤ stop
  boundary : ∀ mark ∈ marks, IsBoundary cs (offset mark)
  cursor_le : ∀ mark ∈ marks, cursor ≤ offset mark
  offset_le : ∀ mark ∈ marks, offset mark ≤ stop
  sorted : marks.Pairwise fun mark next => offset mark ≤ offset next

variable {offset : ι → ℕ} {text : ι → List Char} {stop cursor : ℕ} {mark : ι} {marks : List ι}

/-- What is behind the first mark is cut by the others. -/
theorem IsCut.tail (h : IsCut cs offset stop cursor (mark :: marks)) :
    IsCut cs offset stop (offset mark) marks where
  first := h.boundary mark List.mem_cons_self
  last := h.last
  le_stop := h.offset_le mark List.mem_cons_self
  boundary := fun m hm => h.boundary m (List.mem_cons_of_mem mark hm)
  cursor_le := (List.pairwise_cons.mp h.sorted).1
  offset_le := fun m hm => h.offset_le m (List.mem_cons_of_mem mark hm)
  sorted := (List.pairwise_cons.mp h.sorted).2

/-- The offsets between two marks cut the text between these. -/
theorem IsCut.between {front middle back : List ι} {first last : ι}
    (h : IsCut cs offset stop cursor (front ++ first :: (middle ++ last :: back))) :
    IsCut cs offset (offset last) (offset first) middle := by
  have hbehind := (List.pairwise_append.mp h.sorted).2.1
  obtain ⟨hfirst, hrest⟩ := List.pairwise_cons.mp hbehind
  obtain ⟨hmiddle, -, hlast⟩ := List.pairwise_append.mp hrest
  exact ⟨h.boundary first (by simp), h.boundary last (by simp), hfirst last (by simp),
    fun i hi => h.boundary i (by simp [hi]), fun i hi => hfirst i (by simp [hi]),
    fun i hi => hlast i hi last List.mem_cons_self, hmiddle⟩

theorem inserted_weave (cs : List Char) (offset : ι → ℕ) (stop cursor : ℕ) (marks : List ι) :
    inserted (weave cs offset stop cursor marks) = marks := by
  induction marks generalizing cursor with
  | nil => rfl
  | cons mark marks ih => rw [weave, inserted, inserted, ih]

/-- **Taking out what was put in gives back the text.** -/
theorem kept_weave (h : IsCut cs offset stop cursor marks) :
    kept (weave cs offset stop cursor marks) = slice cs cursor stop := by
  induction marks generalizing cursor with
  | nil => rw [weave, kept, kept, List.append_nil]
  | cons mark marks ih =>
    rw [weave, kept, kept, ih h.tail]
    exact slice_append_slice h.first h.tail.first h.last (h.cursor_le mark List.mem_cons_self)
      h.tail.le_stop

/-- A mark divides a woven text into what is woven before it and what is woven behind it. -/
theorem weave_append (cs : List Char) (offset : ι → ℕ) (stop cursor : ℕ) (front : List ι) (mark : ι)
    (back : List ι) : weave cs offset stop cursor (front ++ mark :: back) =
      weave cs offset (offset mark) cursor front ++
        .inserted mark :: weave cs offset stop (offset mark) back := by
  induction front generalizing cursor with
  | nil => rfl
  | cons first front ih => rw [List.cons_append, weave, ih, weave, List.cons_append, List.cons_append]

/-! ## Edits that only insert -/

theorem splitBytes_append (xs ys : List Char) :
    splitBytes (byteLength xs) (xs ++ ys) = (xs, ys) := by
  induction xs with
  | nil =>
    cases ys with
    | nil => rfl
    | cons d ys =>
      have hd := d.utf8Size_pos
      rw [byteLength_nil, List.nil_append, splitBytes, if_neg (by omega)]
  | cons d xs ih =>
    rw [byteLength_cons, List.cons_append, splitBytes, if_pos (Nat.le_add_right _ _),
      Nat.add_sub_cancel_left, ih]

/-- The rest of a text behind one boundary, cut at another. -/
theorem splitBytes_rest (ha : IsBoundary cs a) (hb : IsBoundary cs b) (hab : a ≤ b) :
    splitBytes (b - a) (splitBytes a cs).2 = (slice cs a b, (splitBytes b cs).2) := by
  obtain ⟨before, between, after, rfl, rfl, hbetween⟩ := ha.split hb hab
  have hstop : b = byteLength (before ++ between) := by
    rw [byteLength_append]
    omega
  have hslice := slice_eq before between after
  rw [← byteLength_append, ← hstop] at hslice
  rw [hslice, ← hbetween, hstop, splitBytes_append, List.append_assoc, splitBytes_append,
    splitBytes_append]

/-- Putting a text in at the offset of a mark. -/
def insertionAt (offset : ι → ℕ) (text : ι → List Char) (mark : ι) : Edit :=
  ⟨offset mark, offset mark, text mark⟩

/-- **Making insertions in a text weaves it.** -/
theorem applyEdits_insertions (h : IsCut cs offset stop cursor marks) :
    applyEdits stop (marks.map (insertionAt offset text)) cursor (splitBytes cursor cs).2 =
      shown text (weave cs offset stop cursor marks) := by
  induction marks generalizing cursor with
  | nil =>
    rw [List.map_nil, applyEdits, splitBytes_rest h.first h.last h.le_stop, weave, shown, shown,
      List.append_nil]
  | cons mark marks ih =>
    have hle := h.cursor_le mark List.mem_cons_self
    have hstay := splitBytes_rest h.tail.first h.tail.first le_rfl
    rw [List.map_cons, applyEdits, weave, shown, shown, ← ih h.tail, insertionAt]
    dsimp only
    rw [splitBytes_rest h.first h.tail.first hle, max_eq_right hle, hstay, max_self,
      List.append_assoc]

theorem editSlice_insertions (h : IsCut cs offset stop cursor marks) :
    editSlice cs cursor stop (marks.map (insertionAt offset text)) =
      shown text (weave cs offset stop cursor marks) :=
  applyEdits_insertions h

end Stasis.Text
