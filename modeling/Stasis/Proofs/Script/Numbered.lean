import Mathlib
import Stasis.Proofs.Script.Placed

/-!
# Numbers of constructs

Functions, classes and the initializers of fields bear numbers. The numbers are handed out while a script is
read, each of them once, so a number tells constructs apart.

* `Node.construct?`: the number and the place of the construct that a node is.
* `Builds`: a construct stands in some nodes or below them.
* `Numbered`: the constructs in some nodes bear numbers of a range, each of them its own.
* `Numbered.construct`: a node that bears the number behind those of what is in it.
-/

namespace Stasis.Script

variable {lo mid hi hi' : ℕ} {n : Node} {nodes more order : List Node} {x : NodeId × Span}

/-- The number and the place of the construct that a node is: a function, a class, or a field that has an
initializer, whose place is that of the initializer. -/
def Node.construct? : Node → Option (NodeId × Span)
  | function f => some (f.id, f.span)
  | «class» c => some (c.id, c.span)
  | member ⟨_, _, .field (some value) id, _⟩ => some (id, value.span)
  | _ => none

/-- The construct stands in one of the nodes or below it. -/
def Builds (nodes : List Node) (x : NodeId × Span) : Prop :=
  ∃ n ∈ nodes, ∃ m : Node, m.IsIn n ∧ m.construct? = some x

theorem not_builds_nil : ¬ Builds [] x := nofun

theorem builds_append_iff : Builds (nodes ++ more) x ↔ Builds nodes x ∨ Builds more x := by
  simp only [Builds, List.mem_append, or_and_right, exists_or]

/-- What stands in a node is the node itself or stands below it. -/
theorem builds_singleton_iff : Builds [n] x ↔ n.construct? = some x ∨ Builds n.children x := by
  simp only [Builds, List.mem_singleton, exists_eq_left]
  constructor
  · rintro ⟨m, hm, hx⟩
    rcases Node.isIn_iff.mp hm with rfl | ⟨child, hchild, hm⟩
    · exact .inl hx
    · exact .inr ⟨child, hchild, m, hm, hx⟩
  · rintro (hx | ⟨child, hchild, m, hm, hx⟩)
    · exact ⟨n, .refl, hx⟩
    · exact ⟨m, hm.tail hchild, hx⟩

theorem builds_of_perm (h : order.Perm nodes) : Builds order x ↔ Builds nodes x := by
  simp only [Builds, h.mem_iff]

/-- **The constructs in the nodes bear numbers of a range**, and no two of them the same. -/
structure Numbered (lo hi : ℕ) (nodes : List Node) : Prop where
  le : lo ≤ hi
  lower : ∀ x, Builds nodes x → lo ≤ x.1
  upper : ∀ x, Builds nodes x → x.1 < hi
  unique : ∀ x y, Builds nodes x → Builds nodes y → x.1 = y.1 → x = y

theorem numbered_nil (h : lo ≤ hi) : Numbered lo hi [] := ⟨h, nofun, nofun, nofun⟩

namespace Numbered

theorem mono (h : Numbered lo hi nodes) (hhi : hi ≤ hi') : Numbered lo hi' nodes :=
  ⟨h.le.trans hhi, h.lower, fun x hx => (h.upper x hx).trans_le hhi, h.unique⟩

/-- Numbers of one range and then of the next one. -/
theorem append (h : Numbered lo mid nodes) (hmore : Numbered mid hi more) :
    Numbered lo hi (nodes ++ more) where
  le := h.le.trans hmore.le
  lower := by
    intro x hx
    rcases builds_append_iff.mp hx with hx | hx
    · exact h.lower x hx
    · exact h.le.trans (hmore.lower x hx)
  upper := by
    intro x hx
    rcases builds_append_iff.mp hx with hx | hx
    · exact (h.upper x hx).trans_le hmore.le
    · exact hmore.upper x hx
  unique := by
    intro x y hx hy hxy
    rcases builds_append_iff.mp hx with hx | hx <;> rcases builds_append_iff.mp hy with hy | hy
    · exact h.unique x y hx hy hxy
    · exact absurd hxy ((h.upper x hx).trans_le (hmore.lower y hy)).ne
    · exact absurd hxy ((h.upper y hy).trans_le (hmore.lower x hx)).ne'
    · exact hmore.unique x y hx hy hxy

/-- A node that bears no number. -/
theorem enclose (h : Numbered lo hi order) (horder : order.Perm n.children) (hn : n.construct? = none) :
    Numbered lo hi [n] := by
  have hbelow : ∀ x, Builds [n] x ↔ Builds order x := fun x => by
    rw [builds_singleton_iff, hn, builds_of_perm horder, or_iff_right (Option.some_ne_none x).symm]
  exact ⟨h.le, fun x hx => h.lower x ((hbelow x).mp hx), fun x hx => h.upper x ((hbelow x).mp hx),
    fun x y hx hy => h.unique x y ((hbelow x).mp hx) ((hbelow y).mp hy)⟩

/-- **A node that bears the next number**, if it bears one. -/
theorem construct (h : Numbered lo hi order) (horder : order.Perm n.children)
    (hn : ∀ x, n.construct? = some x → x.1 = hi) : Numbered lo (hi + 1) [n] := by
  have hcases : ∀ x, Builds [n] x → n.construct? = some x ∨ Builds order x := fun x hx =>
    (builds_singleton_iff.mp hx).imp_right (builds_of_perm horder).mpr
  refine ⟨Nat.le_succ_of_le h.le, ?_, ?_, ?_⟩
  · intro x hx
    rcases hcases x hx with hx | hx
    · exact hn x hx ▸ h.le
    · exact h.lower x hx
  · intro x hx
    rcases hcases x hx with hx | hx
    · exact hn x hx ▸ Nat.lt_succ_self hi
    · exact Nat.lt_succ_of_lt (h.upper x hx)
  · intro x y hx hy hxy
    rcases hcases x hx with hx | hx <;> rcases hcases y hy with hy | hy
    · exact Option.some_inj.mp (hx.symm.trans hy)
    · exact absurd (hxy.symm.trans (hn x hx)) (h.upper y hy).ne
    · exact absurd (hxy.trans (hn y hy)) (h.upper x hx).ne
    · exact h.unique x y hx hy hxy

end Numbered

end Stasis.Script
