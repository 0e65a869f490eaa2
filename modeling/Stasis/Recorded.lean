/-!
# Actions with a record

What an action on a state comes to, and the state that it leaves, does not tell what the state was on
the way. For that an action has a record of the states that it has set. The record is told and never
read: no action can ask for it, and a running program has none.

* `Ghost`: a value that is known and not computed.
* `Recorded`: actions on a state with a record.
* `Recorded.erase`: such an action without its record. By `erase_bind`, `erase_get`, `erase_set` and
  `erase_modifyGet` it is the action that is written the same way without records.
* `Recorded.record`: the record. By `record_bind`, `record_get`, `record_set` and `record_modifyGet` it
  holds every state that is set, and nothing else.
-/

namespace Stasis

/-- A value that is known and not computed. All of it is propositions, of which a running program
keeps nothing. -/
structure Ghost (α : Type) where
  is : α → Prop
  known : ∃ a, is = (· = a)

namespace Ghost

variable {α : Type}

def of (a : α) : Ghost α := ⟨(· = a), a, rfl⟩

/-- The value, for those who speak about it. -/
noncomputable def value (g : Ghost α) : α := g.known.choose

theorem is_eq (g : Ghost α) : g.is = (· = g.value) := g.known.choose_spec

@[simp] theorem value_of (a : α) : (of a).value = a := by
  have h : a = (of a).value := (congrFun (is_eq (of a)) a).mp rfl
  exact h.symm

theorem ext_value {g g' : Ghost α} (h : g.value = g'.value) : g = g' := by
  have his : g.is = g'.is := by rw [is_eq g, is_eq g', h]
  cases g
  cases g'
  cases his
  rfl

/-- Two lists, one behind the other. -/
def append (g g' : Ghost (List α)) : Ghost (List α) where
  is l := ∃ first last, g.is first ∧ g'.is last ∧ l = first ++ last
  known := ⟨g.value ++ g'.value, by simp [is_eq]⟩

instance : Append (Ghost (List α)) := ⟨append⟩

@[simp] theorem value_append (g g' : Ghost (List α)) : (g ++ g').value = g.value ++ g'.value := by
  have h : (g ++ g').is (g.value ++ g'.value) := ⟨_, _, by simp [is_eq], by simp [is_eq], rfl⟩
  rw [is_eq] at h
  exact h.symm

end Ghost

/-- An action on a state, with a record of the states that it sets, the latest first. -/
def Recorded (σ α : Type) : Type := σ → (α × σ) × Ghost (List σ)

namespace Recorded

variable {σ α β : Type}

/-- The action without its record. -/
@[inline]
def erase (x : Recorded σ α) : StateM σ α := fun s => (x s).1

/-- The states that an action sets, the latest first. -/
noncomputable def record (x : Recorded σ α) (s : σ) : List σ := (x s).2.value

@[always_inline]
instance : Monad (Recorded σ) where
  pure a := fun s => ((a, s), .of [])
  bind x f := fun s =>
    match x s with
    | ((a, s'), recorded) =>
      match f a s' with
      | (out, more) => (out, more ++ recorded)

@[always_inline]
instance : MonadStateOf σ (Recorded σ) where
  get := fun s => ((s, s), .of [])
  set s := fun _ => (((), s), .of [s])
  modifyGet f := fun s =>
    match f s with
    | (a, s') => ((a, s'), .of [s'])

theorem ext {x y : Recorded σ α} (herase : x.erase = y.erase)
    (hrecord : ∀ s, x.record s = y.record s) : x = y :=
  funext fun s => Prod.ext (congrFun herase s) (Ghost.ext_value (hrecord s))

/-! ## Erasure -/

@[simp] theorem erase_pure (a : α) : (pure a : Recorded σ α).erase = pure a := rfl

@[simp] theorem erase_bind (x : Recorded σ α) (f : α → Recorded σ β) :
    (x >>= f).erase = x.erase >>= fun a => (f a).erase := rfl

@[simp] theorem erase_get : (get : Recorded σ σ).erase = get := rfl

@[simp] theorem erase_set (s : σ) : (set s : Recorded σ PUnit).erase = set s := rfl

@[simp] theorem erase_modifyGet (f : σ → α × σ) :
    (modifyGet f : Recorded σ α).erase = modifyGet f := rfl

/-! ## The record -/

@[simp] theorem record_pure (a : α) (s : σ) : (pure a : Recorded σ α).record s = [] :=
  Ghost.value_of []

@[simp] theorem record_bind (x : Recorded σ α) (f : α → Recorded σ β) (s : σ) :
    (x >>= f).record s = (f (x.erase.run s).1).record (x.erase.run s).2 ++ x.record s :=
  Ghost.value_append _ _

@[simp] theorem record_get (s : σ) : (get : Recorded σ σ).record s = [] := Ghost.value_of []

@[simp] theorem record_set (s s' : σ) : (set s' : Recorded σ PUnit).record s = [s'] :=
  Ghost.value_of [s']

@[simp] theorem record_modifyGet (f : σ → α × σ) (s : σ) :
    (modifyGet f : Recorded σ α).record s = [(f s).2] := Ghost.value_of [(f s).2]

instance : LawfulMonad (Recorded σ) := by
  refine LawfulMonad.mk' _ ?_ ?_ ?_
  · exact fun x => ext rfl fun s => (record_bind x pure s).trans (by rw [record_pure]; rfl)
  · intro _ _ a f
    refine ext rfl fun s => ?_
    rw [record_bind, record_pure, List.append_nil]
    rfl
  · intro _ _ _ x f g
    refine ext rfl fun s => ?_
    rw [record_bind, record_bind, record_bind, record_bind, List.append_assoc]
    rfl

end Recorded

end Stasis
