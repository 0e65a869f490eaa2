import Mathlib
import Stasis.Proofs.Graph

/-!
# Chains of prototypes

* `Store.ChainAvoids`: a chain that ends within some objects, none of which is a given one.
* `Store.checkChain_cases`: such a chain is found in order, or it is longer than it is followed.
* `Store.ChainWithin.avoids`: a chain behind an object does not come back to it.
-/

namespace Stasis.Store

variable {s s' : Store} {id target : ObjectId} {o : Object} {p : Option ObjectId} {m n : ℕ}

/-- The chain ends within `n` objects, and none of them is `target`. -/
def ChainAvoids (s : Store) (target : ObjectId) : ℕ → Option ObjectId → Prop
  | _, none => True
  | 0, some _ => False
  | n + 1, some id => id ≠ target ∧ ∃ o, s.get id = .ok o ∧ s.ChainAvoids target n o.prototype

theorem ChainAvoids.mono (h : s.ChainAvoids target n p) (hmn : n ≤ m) :
    s.ChainAvoids target m p := by
  induction n generalizing m p with
  | zero =>
    cases p with
    | none => cases m <;> trivial
    | some id => exact h.elim
  | succ n ih =>
    cases p with
    | none => cases m <;> trivial
    | some id =>
      obtain ⟨hid, o, ho, hrest⟩ := h
      obtain ⟨m, rfl⟩ : ∃ k, m = k + 1 := ⟨m - 1, by omega⟩
      exact ⟨hid, o, ho, ih hrest (by omega)⟩

theorem ChainAvoids.within (h : s.ChainAvoids target n p) : s.ChainWithin n p := by
  induction n generalizing p with
  | zero =>
    cases p with
    | none => trivial
    | some id => exact h.elim
  | succ n ih =>
    cases p with
    | none => trivial
    | some id =>
      obtain ⟨-, o, ho, hrest⟩ := h
      exact ⟨o, ho, ih hrest⟩

/-- **A chain that avoids an object is found in order**, or it is longer than it is followed. -/
theorem checkChain_cases (h : s.ChainAvoids target n p) (steps : ℕ) :
    s.checkChain target steps p = .ok () ∨
      steps < n ∧ s.checkChain target steps p = .error (.tooDeep (maxChainDepth + 1) maxChainDepth) := by
  induction steps generalizing n p with
  | zero =>
    cases p with
    | none => exact .inl rfl
    | some id =>
      cases n with
      | zero => exact h.elim
      | succ n => exact .inr ⟨Nat.succ_pos n, by rw [checkChain, if_neg h.1]⟩
  | succ steps ih =>
    cases p with
    | none => exact .inl rfl
    | some id =>
      cases n with
      | zero => exact h.elim
      | succ n =>
        obtain ⟨hid, o, ho, hrest⟩ := h
        simp only [checkChain, if_neg hid, ho, Nat.add_lt_add_iff_right]
        exact ih hrest

/-- A chain that comes to an object goes on behind it. -/
theorem ChainWithin.exists_of_not_avoids (h : s.ChainWithin n p) (ho : s.get id = .ok o)
    (hn : ¬ s.ChainAvoids id n p) : ∃ m < n, s.ChainWithin m o.prototype := by
  induction n generalizing p with
  | zero =>
    cases p with
    | none => exact absurd trivial hn
    | some id => exact h.elim
  | succ n ih =>
    cases p with
    | none => exact absurd trivial hn
    | some x =>
      obtain ⟨ox, hox, hrest⟩ := h
      by_cases hx : x = id
      · subst hx
        rw [ho] at hox
        cases hox
        exact ⟨n, Nat.lt_succ_self n, hrest⟩
      · obtain ⟨m, hm, hw⟩ := ih hrest fun ha => hn ⟨hx, ox, hox, ha⟩
        exact ⟨m, Nat.lt_succ_of_lt hm, hw⟩

/-- **A chain behind an object does not come back to it**: it would never end. -/
theorem ChainWithin.avoids (h : s.ChainWithin n o.prototype) (ho : s.get id = .ok o) :
    s.ChainAvoids id n o.prototype := by
  induction n using Nat.strong_induction_on with
  | _ n ih =>
    by_contra hn
    obtain ⟨m, hm, hw⟩ := h.exists_of_not_avoids ho hn
    exact hn ((ih m hm hw).mono hm.le)

/-- A chain of objects that were there before avoids every new one. -/
theorem ChainWithin.avoids_new (h : s.ChainWithin n p)
    (hs : ∀ id o, s.get id = .ok o → s'.get id = .ok o) (ht : ∀ o, s.get target ≠ .ok o) :
    s'.ChainAvoids target n p := by
  induction n generalizing p with
  | zero =>
    cases p with
    | none => trivial
    | some id => exact h.elim
  | succ n ih =>
    cases p with
    | none => trivial
    | some id =>
      obtain ⟨o, ho, hrest⟩ := h
      refine ⟨?_, o, hs id o ho, ih hrest⟩
      rintro rfl
      exact ht o ho

/-- The chain of prototypes of every object ends somewhere. -/
def ChainsEnd (s : Store) : Prop := ∀ id o, s.get id = .ok o → ∃ n, s.ChainWithin n o.prototype

end Stasis.Store
