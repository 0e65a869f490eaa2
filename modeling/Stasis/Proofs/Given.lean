import Mathlib
import Stasis.Proofs.Moments
import Stasis.Proofs.References

/-!
# The references that a run gives

References are numbered by one counter, which no step of a run turns back. So whatever a run does, a
reference that it gives to an object is numbered from where the counter stood at its beginning.

* `References.GoesOn`: what becomes of the references of a realm.
* `GoesOn.ofObject`, `GoesOn.ofSymbol`, `GoesOn.bindSymbol`: one reference is given.
* `Realm.Step.goesOn`, `Passes.goesOn`, `Steady.goesOn`: a step, a history, and a run.
-/

namespace Stasis

namespace References

/-- The second references go on from the first ones: what was given stays given, and objects that have
got a reference since have one that is numbered from the next number on. -/
structure GoesOn (ρ ρ' : References) : Prop where
  sound : ρ'.Sound
  le : ρ.Le ρ'
  next : ρ.next ≤ ρ'.next
  objects : ∀ id reference, ρ'.objects.find? id = some reference →
    ρ.objects.find? id = some reference ∨ ∃ n, ρ.next ≤ n ∧ reference = referenceOf n

theorem sound_empty : ({} : References).Sound := ⟨nofun, nofun, nofun⟩

namespace GoesOn

variable {ρ ρ' ρ'' : References}

theorem refl (h : ρ.Sound) : ρ.GoesOn ρ := ⟨h, .refl ρ, le_rfl, fun _ _ hid => .inl hid⟩

theorem trans (h : ρ.GoesOn ρ') (h' : ρ'.GoesOn ρ'') : ρ.GoesOn ρ'' := by
  refine ⟨h'.sound, h.le.trans h'.le, h.next.trans h'.next, fun id reference hid => ?_⟩
  rcases h'.objects id reference hid with hold | ⟨n, hn, rfl⟩
  · exact h.objects id reference hold
  · exact .inr ⟨n, h.next.trans hn, rfl⟩

/-- An object is asked for its reference. -/
theorem ofObject (h : ρ.Sound) (id : ObjectId) : ρ.GoesOn (ρ.ofObject id).2 := by
  obtain ⟨hsound, hle, -⟩ := h.ofObject id
  obtain ⟨n, hn, href, hnext⟩ := allocate_next ρ
  cases hf : ρ.objects.find? id with
  | some known =>
    have hsame : (ρ.ofObject id).2 = ρ := by simp only [References.ofObject, hf]
    rw [hsame]
    exact refl h
  | none =>
    have hnew : (ρ.ofObject id).2
        = { ρ with next := n + 1, objects := ρ.objects.insert id (referenceOf n) } := by
      simp only [References.ofObject, hf, href, hnext]
    refine ⟨hsound, hle, ?_, fun id' reference hid => ?_⟩
    · rw [hnew]
      exact hn.trans (Nat.le_succ n)
    · rw [hnew, Table.find?_insert] at hid
      by_cases he : id = id'
      · rw [if_pos he] at hid
        cases hid
        exact .inr ⟨n, hn, rfl⟩
      · rw [if_neg he] at hid
        exact .inl hid

/-- A reference that stands for no symbol is bound to one. -/
theorem bindSymbol (h : ρ.Sound) {reference : String}
    (hfree : ρ.byReference.find? reference = none) (id : SymbolId) :
    ρ.GoesOn (ρ.bindSymbol reference id) := by
  obtain ⟨hsound, hle⟩ := h.bindSymbol hfree id
  exact ⟨hsound, hle, le_rfl, fun _ _ hid => .inl hid⟩

/-- A symbol is asked for its reference. -/
theorem ofSymbol (h : ρ.Sound) (id : SymbolId) : ρ.GoesOn (ρ.ofSymbol id).2 := by
  obtain ⟨hsound, hle, -⟩ := h.ofSymbol id
  obtain ⟨n, hn, -, hnext⟩ := allocate_next ρ
  cases hf : ρ.symbols.find? id with
  | some known =>
    have hsame : (ρ.ofSymbol id).2 = ρ := by simp only [References.ofSymbol, hf]
    rw [hsame]
    exact refl h
  | none =>
    have hnew : (ρ.ofSymbol id).2
        = ({ ρ with next := n + 1 } : References).bindSymbol ρ.allocate.1 id := by
      simp only [References.ofSymbol, hf, hnext]
    refine ⟨hsound, hle, ?_, fun id' reference hid => ?_⟩
    · rw [hnew]
      exact hn.trans (Nat.le_succ n)
    · rw [hnew] at hid
      exact .inl hid

end GoesOn

end References

/-! ## Runs -/

variable {α : Type} {r r' : Realm}

theorem Realm.Change.goesOn (h : r.references.Sound) (hchange : r.Change r') :
    r.references.GoesOn r'.references := by
  cases hchange with
  | objectReference id => exact .ofObject h id
  | symbolReference id => exact .ofSymbol h id
  | resumedSymbol description hfree => exact .bindSymbol h hfree _
  | _ => exact .refl h

theorem Realm.Step.goesOn (h : r.references.Sound) (hstep : r.Step r') :
    r.references.GoesOn r'.references := by
  cases hstep with
  | change hchange => exact hchange.goesOn h
  | _ => exact .refl h

/-- What is true of the first moment of a history, and kept by every step, is true of its last one. -/
theorem Passes.last {heaps : List (Table String Entry)} {P : Realm → Prop} {x : Run α}
    {past later : List Realm} {out : Except Fault α}
    (hstep : ∀ {r₁ r₂ : Realm}, P r₁ → r₁.Step r₂ → P r₂)
    (hx : Passes heaps x (r :: past) out (r' :: later)) (h : P r) : P r' := by
  have hlast := hx.keeps (P := fun h => ∀ now before, h = now :: before → P now)
    (fun hp hs => by rintro _ _ ⟨⟩; exact hstep (hp _ _ rfl) hs)
    (by rintro _ _ ⟨⟩; exact h)
  exact hlast r' later rfl

/-- **A history goes on from its first moment**, step by step. -/
theorem Passes.goesOn {heaps : List (Table String Entry)} {x : Run α} {past later : List Realm}
    {out : Except Fault α} (h : r.references.Sound)
    (hx : Passes heaps x (r :: past) out (r' :: later)) : r.references.GoesOn r'.references :=
  hx.last (P := fun now => r.references.GoesOn now.references)
    (fun hnow hstep => hnow.trans (hstep.goesOn hnow.sound)) (.refl h)

/-- What is true before a run, and kept by every step, is true after it. -/
theorem Steady.last {P : Realm → Prop} {x : Run α} {out : Except Fault α}
    (hstep : ∀ {r₁ r₂ : Realm}, P r₁ → r₁.Step r₂ → P r₂) (hx : Steady [] x)
    (hrun : r.run x = (out, r')) (h : P r) : P r' := by
  obtain ⟨out', r₁, later, hpass, -⟩ := hx r [] List.nil_prefix
  obtain ⟨_, ⟨⟩, hrun'⟩ := hpass.run_eq rfl
  obtain ⟨rfl, rfl⟩ := Prod.mk.inj (hrun.symm.trans hrun')
  exact hpass.last hstep h

/-- **A run goes on with the references of its realm**, whatever it ends with. -/
theorem Steady.goesOn {x : Run α} {out : Except Fault α} (hx : Steady [] x)
    (h : r.references.Sound) (hrun : r.run x = (out, r')) : r.references.GoesOn r'.references :=
  hx.last (P := fun now => r.references.GoesOn now.references)
    (fun hnow hstep => hnow.trans (hstep.goesOn hnow.sound)) hrun (.refl h)

end Stasis
