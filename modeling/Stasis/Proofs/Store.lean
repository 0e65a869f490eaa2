import Mathlib
import Stasis.Heap.Store

/-!
# What a store holds

* `Store.get_push`, `Store.get_push_size`, `Store.get_push_cases`: the objects after one was added.
* `Store.get_set_self`, `Store.get_set_of_ne`, `Store.get_set_cases`: the objects after one was
  changed.
* `Store.eq_set_of_define`: a property that is defined changes one object.
* `Store.own?_of_lookupFrom`: a property that is found belongs to its holder.
-/

namespace Stasis.Store

variable {s s' : Store} {id id' : ObjectId} {o o' : Object}

theorem get_eq_ok_iff : s.get id = .ok o ↔ s.objects[id]? = some o := by
  unfold get
  split
  · next h => rw [h, Option.some.injEq, Except.ok.injEq]
  · next h => simp [h]

theorem lt_size_of_get (h : s.get id = .ok o) : id < s.size := by
  rw [get_eq_ok_iff] at h
  exact (Array.getElem?_eq_some_iff.mp h).1

theorem get_push (h : s.get id = .ok o) : (Store.mk (s.objects.push o')).get id = .ok o := by
  rw [get_eq_ok_iff] at h ⊢
  rw [Array.getElem?_push, if_neg, h]
  rintro rfl
  simp at h

theorem get_push_size (o : Object) :
    (Store.mk (s.objects.push o)).get s.size = .ok o := by
  rw [get_eq_ok_iff]
  exact Array.getElem?_push_size

/-- An object after one was added was there before, or it is the new one. -/
theorem get_push_cases (h : (Store.mk (s.objects.push o')).get id = .ok o) :
    s.get id = .ok o ∨ id = s.size ∧ o = o' := by
  rw [get_eq_ok_iff, Array.getElem?_push] at h
  split at h
  · next hid => exact .inr ⟨hid, (Option.some.inj h).symm⟩
  · exact .inl (get_eq_ok_iff.mpr h)

theorem size_push (o : Object) : (Store.mk (s.objects.push o)).size = s.size + 1 :=
  Array.size_push o

theorem set_push_size (o o' : Object) :
    (Store.mk (s.objects.push o)).set s.size o' = ⟨s.objects.push o'⟩ := by
  unfold set size
  congr 1
  refine Array.ext_getElem? fun i => ?_
  rw [Array.getElem?_setIfInBounds, Array.getElem?_push, Array.getElem?_push, Array.size_push]
  split
  · next h => simp [← h]
  · next h => rw [if_neg fun e => h e.symm, if_neg fun e => h e.symm]

theorem size_set (id : ObjectId) (o : Object) : (s.set id o).size = s.size := by
  simp [set, size]

theorem get_set_self (h : id < s.size) : (s.set id o).get id = .ok o := by
  rw [get_eq_ok_iff]
  unfold set
  rw [Array.getElem?_setIfInBounds_self_of_lt h]

theorem set_get (h : s.get id = .ok o) : s.set id o = s := by
  rw [get_eq_ok_iff] at h
  unfold set
  congr 1
  refine Array.ext_getElem? fun i => ?_
  rw [Array.getElem?_setIfInBounds]
  split
  · next hi =>
    subst hi
    rw [if_pos (Array.getElem?_eq_some_iff.mp h).1, h]
  · rfl

theorem set_set (id : ObjectId) (o o' : Object) : (s.set id o).set id o' = s.set id o' := by
  unfold set
  rw [Array.setIfInBounds_setIfInBounds]

theorem get_set_of_ne (h : id ≠ id') : (s.set id o).get id' = s.get id' := by
  unfold get set
  rw [Array.getElem?_setIfInBounds_ne h]

/-- An object after one was changed is the changed one, or it is what it was. -/
theorem get_set_cases (h : (s.set id o).get id' = .ok o') :
    id' = id ∧ o' = o ∨ s.get id' = .ok o' := by
  by_cases hid : id = id'
  · subst hid
    have hlt : id < s.size := size_set id o ▸ lt_size_of_get h
    rw [get_set_self hlt] at h
    exact .inl ⟨rfl, (Except.ok.inj h).symm⟩
  · rw [get_set_of_ne hid] at h
    exact .inr h

/-- Defining a property changes the object that gets it and nothing else. -/
theorem eq_set_of_define {key : Key} {d : Descriptor} {done : Bool}
    (h : s.define id key d = .ok (s', done)) :
    ∃ o, s.get id = .ok o ∧ s' = s.set id (o.define key d).1 := by
  unfold define at h
  cases ho : s.get id with
  | error => rw [ho] at h; cases h
  | ok o =>
    rw [ho] at h
    cases h
    exact ⟨o, rfl, rfl⟩

/-- A property that is found is an own property of its holder. -/
theorem own?_of_lookupFrom {key : Key} {d : Descriptor} {holder : ObjectId} {steps : ℕ}
    (h : s.lookupFrom key steps id = .ok (some (holder, d))) :
    ∃ o, s.get holder = .ok o ∧ o.own? key = some d := by
  induction steps generalizing id with
  | zero => cases h
  | succ steps ih =>
    unfold lookupFrom at h
    cases ho : s.get id with
    | error => rw [ho] at h; cases h
    | ok o =>
      simp only [ho, bind, Except.bind] at h
      split at h
      · next d hd =>
        cases h
        exact ⟨o, ho, hd⟩
      · exact ih h
      · cases h

end Stasis.Store
