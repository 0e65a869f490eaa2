import Mathlib
import Stasis.Proofs.Define
import Stasis.Proofs.Store

/-!
# Changes of a store

Objects are made and changed by a few operations. Whatever an operation comes to, it has made one of
a few steps; what is said of steps holds of all operations, one after another.

* `Store.Change`: an operation, with its arguments.
* `Store.after`, `Store.afterAll`: the store after an operation that may have failed, and after many.
* `Object.Step`, `Store.Step`: what can become of an object and of a store at once.
* `Store.step_after`: every operation makes a step.
* `Store.Change.result`, `Store.get_after`: what an operation makes of one object.
-/

namespace Stasis

namespace Object

/-- What an operation makes of the object that it changes, but for the prototype. -/
inductive Step (o : Object) : Object → Prop
  | defined {key : Key} {d : Descriptor} {o' : Object} (h : o.define? key d = some o') : Step o o'
  | deleted {key : Key} {d : Descriptor} (found : o.own? key = some d)
    (configurable : d.isConfigurable = true) :
    Step o { o with properties := o.properties.erase key }
  | closed : Step o { o with extensible := false }
  | sealed : Step o o.sealed
  | frozen : Step o o.frozen

variable {o o' : Object} {key : Key} {d : Descriptor}

/-- What an array does before a property is defined: nothing, or it gives its length, if that can be
written, another value, or it takes configurable elements out. -/
inductive Prepares (o : Object) : Object → Prop
  | same : Prepares o o
  | lengthened {v : Value} {e c : Bool} (found : o.own? .length = some (.data v true e c))
    (w : Value) :
    Prepares o { o with properties := o.properties.insert .length (.data w true e c) }
  | truncated (n : ℕ) : Prepares o (o.truncateArray n)

theorem Readies.prepares (h : o.Readies key d o') : o.Prepares o' := by
  cases h with
  | lengthened _ hlength => exact .lengthened hlength _
  | shortened => exact .truncated _
  | same => exact .same

/-- A property is defined where that is allowed, after what the object does first. -/
theorem define?_cases (h : o.define? key d = some o') :
    o.allows key d = true ∧ ∃ u, o.Prepares u
      ∧ o' = { u with properties := u.properties.insert key d } := by
  obtain ⟨hallows, u, hu, rfl⟩ := readies_of_define? h
  exact ⟨hallows, u, hu.prepares, rfl⟩

theorem Prepares.prototype (h : o.Prepares o') : o'.prototype = o.prototype := by
  cases h <;> rfl

theorem Prepares.extensible (h : o.Prepares o') : o'.extensible = o.extensible := by
  cases h <;> rfl

theorem Prepares.kind (h : o.Prepares o') : o'.kind = o.kind := by
  cases h <;> rfl

theorem kind_define (o : Object) (key : Key) (d : Descriptor) : (o.define key d).1.kind = o.kind := by
  rw [define_eq]
  split
  · next o' hdefine =>
    obtain ⟨-, u, hu, rfl⟩ := define?_cases hdefine
    exact hu.kind
  · rfl

theorem kind_delete (o : Object) (key : Key) : (o.delete key).1.kind = o.kind := by
  unfold delete
  split
  · rfl
  · split <;> rfl

/-- The prototype is changed by no step of this kind. -/
theorem Step.prototype (h : o.Step o') : o'.prototype = o.prototype := by
  cases h with
  | defined h =>
    obtain ⟨-, u, hu, rfl⟩ := define?_cases h
    exact hu.prototype
  | _ => rfl

end Object

namespace Store

/-- An operation on a store. -/
inductive Change where
  | alloc (prototype : Option ObjectId) (kind : Kind)
  | define (id : ObjectId) (key : Key) (d : Descriptor)
  | delete (id : ObjectId) (key : Key)
  | setPrototype (id : ObjectId) (prototype : Option ObjectId)
  | preventExtensions (id : ObjectId)
  | sealOff (id : ObjectId)
  | freeze (id : ObjectId)

variable (s : Store)

/-- What an operation answers: the store that it leaves, unless it fails. -/
def change : Change → Except HeapError Store
  | .alloc prototype kind => return (s.alloc prototype kind).2
  | .define id key d => return (← s.define id key d).1
  | .delete id key => return (← s.delete id key).1
  | .setPrototype id prototype => return (← s.setPrototype id prototype).1
  | .preventExtensions id => s.modify id fun o => { o with extensible := false }
  | .sealOff id => s.modify id Object.sealed
  | .freeze id => s.modify id Object.frozen

/-- The store after an operation. One that fails leaves it as it is. -/
def after (c : Change) : Store :=
  match s.change c with
  | .ok s' => s'
  | .error _ => s

/-- The store after operations one after another, whichever of them fail. -/
def afterAll (cs : List Change) : Store := cs.foldl after s

/-- What an operation makes of a store: nothing, or a change of one object. -/
inductive Step (s : Store) : Change → Store → Prop
  | same (c : Change) : Step s c s
  | made (prototype : Option ObjectId) (kind : Kind) :
    Step s (.alloc prototype kind) (s.alloc prototype kind).2
  | changed {c : Change} {id : ObjectId} {o o' : Object} (found : s.get id = .ok o)
    (h : o.Step o') : Step s c (s.set id o')
  | linked {c : Change} {id : ObjectId} {o : Object} {prototype : Option ObjectId}
    (found : s.get id = .ok o) (extensible : o.extensible = true)
    (chain : s.checkChain id (maxChainDepth + 1) prototype = .ok ()) :
    Step s c (s.set id { o with prototype })

variable {s} {s' : Store} {c : Change} {id : ObjectId} {o : Object} {key : Key} {d : Descriptor}
  {done : Bool} {p : Option ObjectId}

theorem eq_set_of_modify {f : Object → Object} (h : s.modify id f = .ok s') :
    ∃ o, s.get id = .ok o ∧ s' = s.set id (f o) := by
  unfold modify at h
  cases ho : s.get id with
  | error => rw [ho] at h; cases h
  | ok o =>
    rw [ho] at h
    cases h
    exact ⟨o, rfl, rfl⟩

theorem eq_set_of_delete (h : s.delete id key = .ok (s', done)) :
    ∃ o, s.get id = .ok o ∧ s' = s.set id (o.delete key).1 := by
  unfold delete at h
  cases ho : s.get id with
  | error => rw [ho] at h; cases h
  | ok o =>
    rw [ho] at h
    cases h
    exact ⟨o, rfl, rfl⟩

theorem step_of_modify {f : Object → Object} (h : s.modify id f = .ok s')
    (hf : ∀ o : Object, o.Step (f o)) : s.Step c s' := by
  obtain ⟨o, ho, rfl⟩ := eq_set_of_modify h
  exact .changed ho (hf o)

theorem step_of_define (h : s.define id key d = .ok (s', done)) : s.Step c s' := by
  obtain ⟨o, ho, rfl⟩ := eq_set_of_define h
  rw [Object.define_eq]
  split
  · next o' hdefine => exact .changed ho (.defined hdefine)
  · rw [set_get ho]
    exact .same c

theorem step_of_delete (h : s.delete id key = .ok (s', done)) : s.Step c s' := by
  obtain ⟨o, ho, rfl⟩ := eq_set_of_delete h
  unfold Object.delete
  split
  · rw [set_get ho]
    exact .same c
  · next d hd =>
    split
    · next hc => exact .changed ho (.deleted hd hc)
    · rw [set_get ho]
      exact .same c

/-- Another prototype is given to an object that can grow, if that closes no cycle. -/
theorem eq_set_of_setPrototype (h : s.setPrototype id p = .ok (s', done)) :
    s' = s ∨ ∃ o, s.get id = .ok o ∧ o.extensible = true ∧
      s.checkChain id (maxChainDepth + 1) p = .ok () ∧ s' = s.set id { o with prototype := p } := by
  unfold setPrototype at h
  cases ho : s.get id with
  | error => rw [ho] at h; cases h
  | ok o =>
    simp only [ho, bind, Except.bind] at h
    split at h
    · cases h
      exact .inl rfl
    · split at h
      · cases h
        exact .inl rfl
      · next hext =>
        cases hchain : s.checkChain id (maxChainDepth + 1) p with
        | error => rw [hchain] at h; cases h
        | ok =>
          rw [hchain] at h
          cases h
          exact .inr ⟨o, rfl, by simpa using hext, rfl, rfl⟩

theorem step_of_setPrototype (h : s.setPrototype id p = .ok (s', done)) : s.Step c s' := by
  obtain rfl | ⟨o, ho, hext, hchain, rfl⟩ := eq_set_of_setPrototype h
  · exact .same c
  · exact .linked ho hext hchain

/-- An operation that answers a flag besides the store. -/
theorem step_of_map {x : Except HeapError (Store × Bool)}
    (h : ∀ s' done, x = .ok (s', done) → s.Step c s') {s'' : Store}
    (hx : (do return (← x).1 : Except HeapError Store) = .ok s'') : s.Step c s'' := by
  cases x with
  | error => cases hx
  | ok out =>
    cases hx
    exact h _ _ rfl

/-- **Every operation makes a step**, whether it fails or not. -/
theorem step_after (s : Store) (c : Change) : s.Step c (s.after c) := by
  unfold after
  split
  · next s' h =>
    cases c with
    | alloc prototype kind =>
      cases h
      exact .made prototype kind
    | define => exact step_of_map (fun _ _ => step_of_define) h
    | delete => exact step_of_map (fun _ _ => step_of_delete) h
    | setPrototype => exact step_of_map (fun _ _ => step_of_setPrototype) h
    | preventExtensions => exact step_of_modify h fun _ => .closed
    | sealOff => exact step_of_modify h fun _ => .sealed
    | freeze => exact step_of_modify h fun _ => .frozen
  · exact .same c

/-- The object that an operation changes, if it changes one. -/
def Change.target : Change → Option ObjectId
  | .alloc .. => none
  | .define id .. | .delete id _ | .setPrototype id _ => some id
  | .preventExtensions id | .sealOff id | .freeze id => some id

/-- What an operation that is carried out makes of the object that it changes. -/
def Change.result (o : Object) : Change → Object
  | .alloc .. => o
  | .define _ key d => (o.define key d).1
  | .delete _ key => (o.delete key).1
  | .setPrototype _ prototype => { o with prototype }
  | .preventExtensions _ => { o with extensible := false }
  | .sealOff _ => o.sealed
  | .freeze _ => o.frozen

/-- An operation on an object leaves the store as it is, or it is carried out on this object. -/
theorem eq_set_of_change (hid : c.target = some id) (h : s.change c = .ok s') :
    s' = s ∨ ∃ o, s.get id = .ok o ∧ s' = s.set id (c.result o) := by
  cases c with
  | alloc => cases hid
  | define _ key d =>
    cases hid
    cases hdefine : s.define id key d with
    | error => rw [change, hdefine] at h; cases h
    | ok out =>
      rw [change, hdefine] at h
      cases h
      exact .inr (eq_set_of_define hdefine)
  | delete _ key =>
    cases hid
    cases hdelete : s.delete id key with
    | error => rw [change, hdelete] at h; cases h
    | ok out =>
      rw [change, hdelete] at h
      cases h
      exact .inr (eq_set_of_delete hdelete)
  | setPrototype _ p =>
    cases hid
    cases hlink : s.setPrototype id p with
    | error => rw [change, hlink] at h; cases h
    | ok out =>
      rw [change, hlink] at h
      cases h
      exact (eq_set_of_setPrototype hlink).imp_right fun ⟨o, ho, _, _, hs⟩ => ⟨o, ho, hs⟩
  | preventExtensions | sealOff | freeze =>
    cases hid
    exact .inr (eq_set_of_modify h)

/-- **An operation leaves an object as it is, or it is carried out on it.** -/
theorem get_after (c : Change) (found : s.get id = .ok o) :
    (s.after c).get id = .ok o ∨ c.target = some id ∧ (s.after c).get id = .ok (c.result o) := by
  unfold after
  cases hchange : s.change c with
  | error => exact .inl found
  | ok s' =>
    dsimp only
    cases htarget : c.target with
    | none =>
      cases c with
      | alloc prototype kind =>
        cases hchange
        exact .inl (get_push found)
      | _ => cases htarget
    | some id' =>
      obtain rfl | ⟨o', ho', rfl⟩ := eq_set_of_change htarget hchange
      · exact .inl found
      · by_cases hid : id' = id
        · subst hid
          cases found.symm.trans ho'
          exact .inr ⟨rfl, get_set_self (lt_size_of_get found)⟩
        · exact .inl ((get_set_of_ne hid).trans found)

/-- What every step keeps, any number of operations keep. -/
theorem afterAll_keeps {P : Store → Prop}
    (hstep : ∀ (s s' : Store) (c : Change), P s → s.Step c s' → P s') (cs : List Change) :
    ∀ s : Store, P s → P (s.afterAll cs) := by
  induction cs with
  | nil => exact fun _ h => h
  | cons c cs ih => exact fun s h => ih (s.after c) (hstep s _ c h (step_after s c))

end Store

end Stasis
