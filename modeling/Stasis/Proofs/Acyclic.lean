import Mathlib
import Stasis.Evaluate.Operator
import Stasis.Proofs.Change
import Stasis.Proofs.Chains

/-!
# Chains of prototypes end

An object is made in front of one that is there already, and gets another prototype only after the
chain of that one has been followed to its end without meeting the object. So no chain comes back to
where it began, and as objects on a chain are different, a chain is no longer than there are objects.
The bound on how far the check follows a chain does not matter: where it gives up, nothing changes.

* `Store.Built`: the stores that operations make of the empty one.
* `Store.Step.chainsEnd`: one operation keeps every chain finite.
* `Store.ChainsEnd.within_size`: a finite chain is no longer than there are objects.
* `Store.Behind`: what stands somewhere behind an object.
* `chains_end`: chains, the search for an object behind another one, and the search for a property.
-/

namespace Stasis

namespace Store

variable {s s' : Store} {c : Change} {id target : ObjectId} {o : Object} {p q : Option ObjectId}
  {m n : ℕ}

/-- A new object stands in front of one that is there already, or of none. -/
def Change.IsGrounded (s : Store) : Change → Prop
  | .alloc (some prototype) _ => prototype < s.size
  | _ => True

/-- What operations make of the empty store, one after another, whichever of them fail. -/
inductive Built : Store → Prop
  | empty : Built {}
  | after {s : Store} (h : s.Built) {c : Change} (grounded : c.IsGrounded s) : Built (s.after c)

/-! ## Changes of chains -/

theorem chainWithin_none (s : Store) (n : ℕ) : s.ChainWithin n none := by
  cases n <;> trivial

theorem ChainWithin.mono (h : s.ChainWithin n p) (hnm : n ≤ m) : s.ChainWithin m p := by
  induction n generalizing m p with
  | zero =>
    cases p with
    | none => exact chainWithin_none s m
    | some id => exact h.elim
  | succ n ih =>
    cases p with
    | none => exact chainWithin_none s m
    | some id =>
      obtain ⟨o, ho, hrest⟩ := h
      obtain ⟨m, rfl⟩ : ∃ k, m = k + 1 := ⟨m - 1, by omega⟩
      exact ⟨o, ho, ih hrest (by omega)⟩

/-- Where every object keeps its prototype, a chain stays as it is. -/
theorem ChainWithin.congr (h : s.ChainWithin n p)
    (hs : ∀ id o, s.get id = .ok o → ∃ o', s'.get id = .ok o' ∧ o'.prototype = o.prototype) :
    s'.ChainWithin n p := by
  induction n generalizing p with
  | zero =>
    cases p with
    | none => trivial
    | some id => exact h.elim
  | succ n ih =>
    cases p with
    | none => trivial
    | some id =>
      obtain ⟨o, ho, hrest⟩ := h
      obtain ⟨o', ho', hp⟩ := hs id o ho
      exact ⟨o', ho', hp ▸ ih hrest⟩

/-- A chain that was found in order ends, and the object that was looked for is not on it. -/
theorem avoids_of_checkChain (h : s.checkChain target n p = .ok ()) :
    s.ChainAvoids target n p := by
  induction n generalizing p with
  | zero =>
    cases p with
    | none => trivial
    | some id =>
      unfold checkChain at h
      split at h <;> cases h
  | succ n ih =>
    cases p with
    | none => trivial
    | some id =>
      unfold checkChain at h
      split at h
      · cases h
      · next hid =>
        cases ho : s.get id with
        | error => rw [ho] at h; cases h
        | ok o =>
          rw [ho] at h
          exact ⟨hid, o, ho, ih h⟩

/-- A chain does not change with an object that is not on it. -/
theorem ChainAvoids.within_set (h : s.ChainAvoids target n p) (o' : Object) :
    (s.set target o').ChainWithin n p := by
  induction n generalizing p with
  | zero =>
    cases p with
    | none => trivial
    | some id => exact h.elim
  | succ n ih =>
    cases p with
    | none => trivial
    | some id =>
      obtain ⟨hid, o, ho, hrest⟩ := h
      exact ⟨o, (get_set_of_ne fun e => hid e.symm).trans ho, ih hrest⟩

/-- A chain through an object that gets another prototype goes on with the chain of that one. -/
theorem ChainWithin.linked (h : s.ChainWithin n p) (found : s.get id = .ok o)
    (hq : (s.set id { o with prototype := q }).ChainWithin m q) :
    (s.set id { o with prototype := q }).ChainWithin (n + m) p := by
  induction n generalizing p with
  | zero =>
    cases p with
    | none => exact chainWithin_none _ _
    | some x => exact h.elim
  | succ n ih =>
    cases p with
    | none => exact chainWithin_none _ _
    | some x =>
      obtain ⟨u, hu, hrest⟩ := h
      rw [Nat.succ_add]
      by_cases hx : id = x
      · subst hx
        exact ⟨_, get_set_self (lt_size_of_get found), hq.mono (by omega)⟩
      · exact ⟨u, (get_set_of_ne hx).trans hu, ih hrest⟩

/-- **One operation keeps every chain finite.** -/
theorem Step.chainsEnd (h : s.Step c s') (grounded : c.IsGrounded s) (hs : s.ChainsEnd) :
    s'.ChainsEnd := by
  cases h with
  | same => exact hs
  | made prototype kind =>
    have hold : ∀ {n p}, s.ChainWithin n p → (s.alloc prototype kind).2.ChainWithin n p :=
      fun h => h.congr fun id o ho => ⟨o, get_push ho, rfl⟩
    intro id o ho
    obtain ho | ⟨-, rfl⟩ := get_push_cases ho
    · obtain ⟨n, hn⟩ := hs id o ho
      exact ⟨n, hold hn⟩
    · cases prototype with
      | none => exact ⟨0, trivial⟩
      | some p =>
        obtain ⟨u, hu⟩ : ∃ u, s.get p = .ok u :=
          ⟨s.objects[p], get_eq_ok_iff.mpr (Array.getElem?_eq_getElem grounded)⟩
        obtain ⟨n, hn⟩ := hs p u hu
        exact ⟨n + 1, hold ⟨u, hu, hn⟩⟩
  | @changed _ id o o' found hstep =>
    have hold : ∀ {n p}, s.ChainWithin n p → (s.set id o').ChainWithin n p := by
      refine fun h => h.congr fun x u hu => ?_
      by_cases hx : id = x
      · subst hx
        cases found.symm.trans hu
        exact ⟨o', get_set_self (lt_size_of_get found), hstep.prototype⟩
      · exact ⟨u, (get_set_of_ne hx).trans hu, rfl⟩
    intro x u hu
    obtain ⟨rfl, rfl⟩ | hu := get_set_cases hu
    · obtain ⟨n, hn⟩ := hs _ _ found
      exact ⟨n, hstep.prototype ▸ hold hn⟩
    · obtain ⟨n, hn⟩ := hs x u hu
      exact ⟨n, hold hn⟩
  | @linked _ id o q found _ chain =>
    have hq := (avoids_of_checkChain chain).within_set { o with prototype := q }
    intro x u hu
    obtain ⟨rfl, rfl⟩ | hu := get_set_cases hu
    · exact ⟨_, hq⟩
    · obtain ⟨n, hn⟩ := hs x u hu
      exact ⟨_, hn.linked found hq⟩

theorem Built.chainsEnd (h : s.Built) : s.ChainsEnd := by
  induction h with
  | empty =>
    intro id o ho
    exact absurd (lt_size_of_get ho) (Nat.not_lt_zero id)
  | after h grounded ih => exact (step_after _ _).chainsEnd grounded ih

/-! ## How long a chain can be -/

/-- Objects on a chain are different: those that are still to come are among the objects that have
not been met. -/
theorem ChainWithin.within_unseen (h : s.ChainWithin n p) (seen : Finset ObjectId)
    (hseen : ∀ x ∈ seen, x < s.size ∧ s.ChainAvoids x n p) :
    s.ChainWithin (s.size - seen.card) p := by
  induction n generalizing p seen with
  | zero =>
    cases p with
    | none => exact chainWithin_none _ _
    | some id => exact h.elim
  | succ n ih =>
    cases p with
    | none => exact chainWithin_none _ _
    | some id =>
      obtain ⟨o, ho, hrest⟩ := h
      have hnew : id ∉ seen := fun hid => (hseen id hid).2.1 rfl
      have hlater : ∀ x ∈ insert id seen, x < s.size ∧ s.ChainAvoids x n o.prototype := by
        intro x hx
        obtain rfl | hx := Finset.mem_insert.mp hx
        · exact ⟨lt_size_of_get ho, hrest.avoids ho⟩
        · obtain ⟨hlt, -, o', ho', havoids⟩ := hseen x hx
          cases ho.symm.trans ho'
          exact ⟨hlt, havoids⟩
      have hcard : (insert id seen).card ≤ s.size := by
        have hsub : insert id seen ⊆ Finset.range s.size :=
          fun x hx => Finset.mem_range.mpr (hlater x hx).1
        simpa using Finset.card_le_card hsub
      have hwithin := ih hrest (insert id seen) hlater
      rw [Finset.card_insert_of_notMem hnew] at hwithin hcard
      rw [show s.size - seen.card = s.size - (seen.card + 1) + 1 by omega]
      exact ⟨o, ho, hwithin⟩

/-- **From any object the end of its chain is fewer steps away than there are objects.** -/
theorem ChainsEnd.within_size (h : s.ChainsEnd) (found : s.get id = .ok o) :
    s.ChainWithin (s.size - 1) o.prototype := by
  obtain ⟨n, hn⟩ := h id o found
  refine hn.within_unseen {id} fun x hx => ?_
  rw [Finset.mem_singleton] at hx
  subst hx
  exact ⟨lt_size_of_get found, hn.avoids found⟩

/-- From any object on, the object itself included, the chain has no more objects than there are. -/
theorem ChainsEnd.within_size_some (h : s.ChainsEnd) (found : s.get id = .ok o) :
    s.ChainWithin s.size (some id) := by
  have hpos : s.size - 1 + 1 = s.size := Nat.sub_add_cancel (Nat.one_le_of_lt (lt_size_of_get found))
  rw [← hpos]
  exact ⟨o, found, h.within_size found⟩

/-! ## Following chains -/

/-- The target stands somewhere behind the object. -/
inductive Behind (s : Store) (target : ObjectId) : ObjectId → Prop
  | next {id : ObjectId} {o : Object} (found : s.get id = .ok o)
    (prototype : o.prototype = some target) : Behind s target id
  | further {id next : ObjectId} {o : Object} (found : s.get id = .ok o)
    (prototype : o.prototype = some next) (rest : s.Behind target next) : Behind s target id

/-- The search for a property fails only where the chain goes on when it gives up. -/
theorem lookupFrom_cases (key : Key) (steps : ℕ) (h : s.ChainWithin n (some id)) :
    (∃ found, s.lookupFrom key steps id = .ok found)
      ∨ s.lookupFrom key steps id = .error (.tooDeep (maxChainDepth + 1) maxChainDepth)
        ∧ ¬ s.ChainWithin steps (some id) := by
  induction steps generalizing id n with
  | zero => exact .inr ⟨rfl, fun hshort => hshort⟩
  | succ steps ih =>
    obtain ⟨n, rfl⟩ : ∃ k, n = k + 1 := by
      cases n with
      | zero => exact h.elim
      | succ n => exact ⟨n, rfl⟩
    obtain ⟨o, ho, hrest⟩ := h
    simp only [lookupFrom, ho, bind, Except.bind]
    cases hd : o.own? key with
    | some d => exact .inl ⟨_, rfl⟩
    | none =>
      cases hp : o.prototype with
      | none => exact .inl ⟨_, rfl⟩
      | some next =>
        rw [hp] at hrest
        obtain hfound | ⟨herror, hlong⟩ := ih hrest
        · exact .inl hfound
        · refine .inr ⟨herror, ?_⟩
          rintro ⟨o', ho', hshort⟩
          cases ho.symm.trans ho'
          exact hlong (hp ▸ hshort)

end Store

/-- The search for an object behind another one comes to an end with the chain. -/
theorem yields_behind {r : Realm} {target id : ObjectId} {n : ℕ}
    (h : r.store.ChainWithin n (some id)) :
    ∃ found, Yields (behind target n id) r found r
      ∧ (found = true ↔ r.store.Behind target id) := by
  induction n generalizing id with
  | zero => exact h.elim
  | succ n ih =>
    obtain ⟨o, ho, hrest⟩ := h
    cases hp : o.prototype with
    | none =>
      refine ⟨false, (yields_objectAt ho).bind ?_, by simp, ?_⟩
      · rw [hp]
        exact Yields.pure false r
      · rintro (⟨hfound, hnext⟩ | ⟨hfound, hnext, -⟩) <;> cases ho.symm.trans hfound <;>
          rw [hp] at hnext <;> cases hnext
    | some next =>
      by_cases htarget : next = target
      · subst htarget
        refine ⟨true, (yields_objectAt ho).bind ?_, fun _ => .next ho hp, fun _ => rfl⟩
        rw [hp]
        simp only [if_true]
        exact Yields.pure true r
      · rw [hp] at hrest
        obtain ⟨found, hyields, hiff⟩ := ih hrest
        refine ⟨found, (yields_objectAt ho).bind ?_, fun h => .further ho hp (hiff.mp h), fun h => ?_⟩
        · rw [hp]
          simp only [htarget, if_false]
          exact hyields
        · refine hiff.mpr ?_
          obtain ⟨hfound, hnext⟩ | ⟨hfound, hnext, hbehind⟩ := h
          · cases ho.symm.trans hfound
            exact absurd (Option.some.inj (hp.symm.trans hnext)) htarget
          · cases ho.symm.trans hfound
            cases hp.symm.trans hnext
            exact hbehind

/-- **Chains of prototypes end.** In a store that any operations have made of the empty one, whichever
of them failed: from an object the end of its chain is fewer steps away than there are objects. So
the search for an object behind another one always comes to an answer, and to the right one, in as
many rounds as there are objects; and the search for a property fails only on a chain that is longer
than the search goes. -/
theorem chains_end {s : Store} (h : s.Built) {id : ObjectId} {o : Object}
    (found : s.get id = .ok o) :
    s.ChainWithin (s.size - 1) o.prototype
      ∧ (∀ (r : Realm) (target : ObjectId) (n : ℕ), r.store = s → s.size ≤ n →
          ∃ answer, Yields (behind target n id) r answer r
            ∧ (answer = true ↔ s.Behind target id))
      ∧ ∀ (key : Key) (e : HeapError), s.lookup id key = .error e →
          e = .tooDeep (maxChainDepth + 1) maxChainDepth
            ∧ ¬ s.ChainWithin maxChainDepth o.prototype := by
  have hwithin := h.chainsEnd.within_size found
  have hpos : 0 < s.size := Nat.zero_lt_of_lt (Store.lt_size_of_get found)
  have hchain : s.ChainWithin (s.size - 1 + 1) (some id) := ⟨o, found, hwithin⟩
  refine ⟨hwithin, ?_, ?_⟩
  · rintro r target n rfl hn
    have hbound : r.store.size - 1 + 1 ≤ n := by omega
    exact yields_behind (hchain.mono hbound)
  · intro key e he
    obtain ⟨answer, hanswer⟩ | ⟨herror, hlong⟩ := Store.lookupFrom_cases key
      (maxChainDepth + 1) hchain
    · cases he.symm.trans hanswer
    · cases he.symm.trans herror
      exact ⟨rfl, fun hshort => hlong ⟨o, found, hshort⟩⟩

/-- Two objects, one in front of the other, after it was refused to turn their chain into a cycle. -/
def refusedCycle : Store :=
  ((Store.after {} (.alloc none .ordinary)).after (.alloc (some 0) .ordinary)).after
    (.setPrototype 0 (some 1))

/-- The chain of the object in front has one more object. -/
theorem chains_end_refusedCycle :
    refusedCycle.Built ∧ refusedCycle.get 1 = .ok { prototype := some 0, kind := .ordinary }
      ∧ refusedCycle.ChainWithin 1 (some 0)
      ∧ ∀ r : Realm, r.store = refusedCycle → ∃ answer, Yields (behind 0 2 1) r answer r
        ∧ (answer = true ↔ refusedCycle.Behind 0 1) := by
  have hone : (Store.after {} (.alloc none .ordinary)).Built := .after .empty (c := .alloc ..) trivial
  have htwo := hone.after (c := .alloc (some 0) .ordinary) Nat.zero_lt_one
  have hbuilt : refusedCycle.Built := htwo.after (c := .setPrototype ..) trivial
  have hfound : refusedCycle.get 1 = .ok { prototype := some 0, kind := .ordinary } := rfl
  obtain ⟨hwithin, hbehind, -⟩ := chains_end hbuilt hfound
  exact ⟨hbuilt, hfound, hwithin, fun r hr => hbehind r 0 2 hr le_rfl⟩

end Stasis
