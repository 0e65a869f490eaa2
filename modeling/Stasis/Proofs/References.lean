import Mathlib
import Stasis.Proofs.Graph
import Stasis.Proofs.Table
import Stasis.Proofs.Text

/-!
# References of objects and symbols

* `References.Le`: every reference that was given stays given.
* `References.Sound.ofObject`, `References.Sound.ofSymbol`: giving a reference.
* `References.Sound.bindSymbol`: a symbol that is read keeps its reference.
-/

namespace Stasis

theorem referenceOf_injective : Function.Injective referenceOf := by
  intro m n h
  have h' : (toString m).toList = (toString n).toList := by
    have := congrArg String.toList h
    simpa [referenceOf] using this
  have hm := Number.digits?_digitsOf m
  have hn := Number.digits?_digitsOf n
  have hd : Number.digitsOf m = Number.digitsOf n := by
    simpa [Number.digitsOf, toString, Nat.repr] using h'
  rw [hd, hn] at hm
  exact (Option.some.inj hm).symm

namespace References

/-- Every reference that was given stays given. -/
structure Le (ρ ρ' : References) : Prop where
  objects : ∀ id reference, ρ.objects.find? id = some reference →
    ρ'.objects.find? id = some reference
  symbols : ∀ id reference, ρ.symbols.find? id = some reference →
    ρ'.symbols.find? id = some reference
  byReference : ∀ reference id, ρ.byReference.find? reference = some id →
    ρ'.byReference.find? reference = some id

variable {ρ ρ' ρ'' : References}

theorem Le.refl (ρ : References) : ρ.Le ρ := ⟨fun _ _ h => h, fun _ _ h => h, fun _ _ h => h⟩

theorem Le.trans (h : ρ.Le ρ') (h' : ρ'.Le ρ'') : ρ.Le ρ'' where
  objects := fun id reference hf => h'.objects id reference (h.objects id reference hf)
  symbols := fun id reference hf => h'.symbols id reference (h.symbols id reference hf)
  byReference := fun reference id hf => h'.byReference reference id (h.byReference reference id hf)

/-! ## A free number -/

theorem le_freeFrom (ρ : References) (steps : ℕ) : ∀ n, n ≤ ρ.freeFrom steps n := by
  induction steps with
  | zero => intro n; exact le_refl n
  | succ steps ih =>
    intro n
    unfold freeFrom
    split
    · exact (Nat.le_succ n).trans (ih (n + 1))
    · exact le_refl n

/-- Unless the number that is found is free, all numbers that were tried are taken. -/
theorem freeFrom_free (ρ : References) (steps : ℕ) : ∀ n,
    (∀ i < steps, ρ.byReference.contains (referenceOf (n + i)) = true)
      ∨ ρ.byReference.contains (referenceOf (ρ.freeFrom steps n)) = false := by
  induction steps with
  | zero => intro n; left; intro i hi; exact absurd hi (Nat.not_lt_zero i)
  | succ steps ih =>
    intro n
    unfold freeFrom
    split
    · next hn =>
      rcases ih (n + 1) with hall | hfree
      · left
        intro i hi
        rcases i with _ | i
        · exact hn
        · have := hall i (by omega)
          rwa [Nat.add_right_comm, Nat.add_assoc] at this
      · exact Or.inr hfree
    · next hn => exact Or.inr (by simpa using hn)

theorem allocate_free (ρ : References) : ρ.byReference.find? ρ.allocate.1 = none := by
  rw [← Table.contains_eq_false_iff]
  rcases freeFrom_free ρ (ρ.byReference.size + 1) ρ.next with hall | hfree
  · -- more references than there are symbols
    exfalso
    let taken := (Finset.range (ρ.byReference.size + 1)).image fun i => referenceOf (ρ.next + i)
    have hcard : taken.card = ρ.byReference.size + 1 := by
      rw [Finset.card_image_of_injective _ fun i j h => by
        simpa using referenceOf_injective h, Finset.card_range]
    have hsub : taken ⊆ ρ.byReference.keys.toFinset := by
      intro x hx
      obtain ⟨i, hi, rfl⟩ := Finset.mem_image.mp hx
      exact List.mem_toFinset.mpr (Table.contains_iff.mp (hall i (Finset.mem_range.mp hi)))
    have hle := Finset.card_le_card hsub
    have hlen := ρ.byReference.keys.toFinset_card_le
    have hsize : ρ.byReference.keys.length = ρ.byReference.size := by
      simp [Table.keys, Table.size]
    omega
  · exact hfree

/-! ## Giving a reference -/

theorem allocate_next (ρ : References) :
    ∃ n, ρ.next ≤ n ∧ ρ.allocate.1 = referenceOf n ∧ ρ.allocate.2 = { ρ with next := n + 1 } :=
  ⟨_, le_freeFrom ρ _ _, rfl, rfl⟩

/-- **The reference of an object**: it stays what it was, or it is one that no object had. -/
theorem Sound.ofObject (h : ρ.Sound) (id : ObjectId) :
    (ρ.ofObject id).2.Sound ∧ ρ.Le (ρ.ofObject id).2
      ∧ (ρ.ofObject id).2.objects.find? id = some (ρ.ofObject id).1 := by
  unfold References.ofObject
  rcases hf : ρ.objects.find? id with _ | reference
  · obtain ⟨n, hn, href, hnext⟩ := allocate_next ρ
    simp only [href, hnext]
    -- an object that had the reference would have a number below the next one
    have hnew : ∀ id', ρ.objects.find? id' ≠ some (referenceOf n) := by
      intro id' hid'
      obtain ⟨m, hm, he⟩ := h.given id' _ hid'
      have := referenceOf_injective he
      omega
    refine ⟨⟨?_, ?_, h.symbols⟩, ⟨?_, fun _ _ h => h, fun _ _ h => h⟩, ?_⟩
    · intro id' reference
      rw [Table.find?_insert]
      split
      · rintro ⟨⟩
        exact ⟨n, Nat.lt_succ_self n, rfl⟩
      · intro hid'
        obtain ⟨m, hm, he⟩ := h.given id' _ hid'
        exact ⟨m, by show m < n + 1; omega, he⟩
    · intro id₁ id₂ reference
      simp only [Table.find?_insert]
      split <;> split
      · next h₁ h₂ => intro _ _; exact h₁.symm.trans h₂
      · rintro ⟨⟩ h₂; exact absurd h₂ (hnew _)
      · rintro h₁ ⟨⟩; exact absurd h₁ (hnew _)
      · exact h.objects id₁ id₂ reference
    · intro id' reference hid'
      rw [Table.find?_insert, if_neg, hid']
      rintro rfl
      rw [hf] at hid'
      cases hid'
    · rw [Table.find?_insert, if_pos rfl]
  · exact ⟨h, Le.refl ρ, hf⟩

/-- A reference stands for the symbol to which it is bound. -/
theorem symbol?_bindSymbol_self {reference : String} {id : SymbolId}
    (hfree : ρ.symbol? reference = none) :
    (ρ.bindSymbol reference id).symbol? reference = some id := by
  unfold symbol? bindSymbol
  rw [Table.find?_insertNew, if_pos rfl, show ρ.byReference.find? reference = none from hfree,
    Option.getD_none]

/-- Another reference stands for what it stood for. -/
theorem symbol?_bindSymbol_of_ne {reference other : String} {id : SymbolId}
    (hne : reference ≠ other) :
    (ρ.bindSymbol reference id).symbol? other = ρ.symbol? other := by
  unfold symbol? bindSymbol
  rw [Table.find?_insertNew, if_neg hne]

/-- A new reference is bound to a symbol that may have one. -/
theorem Sound.bindSymbol (h : ρ.Sound) {reference : String}
    (hfree : ρ.byReference.find? reference = none) (id : SymbolId) :
    (ρ.bindSymbol reference id).Sound ∧ ρ.Le (ρ.bindSymbol reference id) := by
  -- what was known of a reference was known of another one
  have hold : ∀ reference' id', ρ.byReference.find? reference' = some id' →
      (ρ.bindSymbol reference id).byReference.find? reference' = some id' := by
    intro reference' id' hid'
    unfold References.bindSymbol
    rw [Table.find?_insertNew, if_neg, hid']
    rintro rfl
    rw [hfree] at hid'
    cases hid'
  refine ⟨⟨h.given, h.objects, ?_⟩, ⟨fun _ _ h => h, ?_, hold⟩⟩
  · intro id' reference' hid'
    unfold References.bindSymbol at hid'
    rw [Table.find?_insertNew] at hid'
    split at hid'
    · next he =>
      subst he
      cases hs : ρ.symbols.find? id with
      | none =>
        rw [hs, Option.getD_none] at hid'
        cases hid'
        unfold References.bindSymbol
        rw [Table.find?_insertNew, if_pos rfl, hfree, Option.getD_none]
      | some known =>
        rw [hs] at hid'
        cases hid'
        exact hold _ _ (h.symbols _ _ hs)
    · exact hold _ _ (h.symbols id' reference' hid')
  · intro id' reference' hid'
    unfold References.bindSymbol
    rw [Table.find?_insertNew]
    split
    · next he =>
      subst he
      rw [hid', Option.getD_some]
    · exact hid'

/-- **The reference of a symbol** leads back to the symbol. -/
theorem Sound.ofSymbol (h : ρ.Sound) (id : SymbolId) :
    (ρ.ofSymbol id).2.Sound ∧ ρ.Le (ρ.ofSymbol id).2
      ∧ (ρ.ofSymbol id).2.symbols.find? id = some (ρ.ofSymbol id).1 := by
  unfold References.ofSymbol
  rcases hf : ρ.symbols.find? id with _ | reference
  · have hfree := allocate_free ρ
    obtain ⟨n, hn, href, hnext⟩ := allocate_next ρ
    have hsound : ({ ρ with next := n + 1 } : References).Sound := by
      refine ⟨fun id' reference hid' => ?_, h.objects, h.symbols⟩
      obtain ⟨m, hm, he⟩ := h.given id' _ hid'
      exact ⟨m, by show m < n + 1; omega, he⟩
    have hfree' : ({ ρ with next := n + 1 } : References).byReference.find? ρ.allocate.1 = none :=
      hfree
    obtain ⟨hbound, hle⟩ := hsound.bindSymbol hfree' id
    simp only [hnext]
    refine ⟨hbound, ⟨hle.objects, hle.symbols, hle.byReference⟩, ?_⟩
    rw [References.bindSymbol, Table.find?_insertNew, if_pos rfl, hf, Option.getD_none]
  · exact ⟨h, Le.refl ρ, hf⟩

end References

end Stasis
