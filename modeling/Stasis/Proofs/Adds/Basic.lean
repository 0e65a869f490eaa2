import Mathlib
import Stasis.Proofs.Change
import Stasis.Proofs.Run
import Stasis.Proofs.Table

/-!
# Actions that only add

Reading a property and asking an object for its text may run functions, and a function can do
anything. In a tame store those that are run so only read, so such actions add objects and symbols
and change nothing that was there. What they add is tame again.

* `Native.isReader`: built-in functions that change nothing.
* `Store.IsTame`: accessors, and properties by whose names functions are looked up to be called,
  hold such functions only.
* `Base.Over`: a tame realm with objects and symbols added.
* `Base.Gives`: an action that adds objects and symbols only, with what is known of its value.
* `Base.Adds`: such an action, with nothing said of its value.
-/

namespace Stasis

/-! ## Tame stores -/

/-- Paths call what they find under this key, and so do conversions. -/
def Key.isAsked : Key → Bool
  | .text name => isReflective name || name == "toString"
  | .symbol _ => false

/-- The built-in function changes nothing that was there. -/
def Native.isReader : Native → Bool
  | .object .getPrototypeOf | .object .getOwnPropertyDescriptor | .object .toString
  | .object .valueOf | .function .toString | .array .toString | .map .size | .set .values
  | .set .size | .symbol .for | .symbol .description | .symbol .toString | .date .getTime
  | .regexp .source | .regexp .flags | .errorToString | .buffer .byteLength
  | .buffer .maxByteLength | .buffer .resizable | .buffer .detached | .bytes .length
  | .bytes .buffer | .bytes .byteOffset | .primitive .valueOf | .primitive .toString => true
  | _ => false

/-- The object is there, and if it can be called, it is a built-in function that only reads. -/
def Store.IsReader (s : Store) (id : ObjectId) : Prop :=
  ∃ o, s.get id = .ok o ∧
    ∀ b, o.kind = .function b → ∃ op slot, b = .native op slot ∧ op.isReader = true

/-- No function that does more than read is called for the property under this key. -/
def Descriptor.IsTame (s : Store) (key : Key) : Descriptor → Prop
  | .data v _ _ _ => key.isAsked = true → ∀ f, v = .object f → s.IsReader f
  | .accessor g h _ _ => key.isAsked = false ∧ ∀ f, g = some f ∨ h = some f → s.IsReader f

/-- No property makes a function run that does more than read. -/
def Object.IsTame (s : Store) (o : Object) : Prop :=
  ∀ key d, o.own? key = some d → d.IsTame s key

/-- No object does. -/
def Store.IsTame (s : Store) : Prop := ∀ id o, s.get id = .ok o → o.IsTame s

/-- The object cannot be called, and for none of its properties is anything called. -/
structure Object.IsPlain (o : Object) : Prop where
  kind : o.kind.isFunction = false
  properties : ∀ key d, o.own? key = some d → d.isData = true ∧ key.isAsked = false

section Tame

variable {s s' : Store} {o u : Object} {key : Key} {d : Descriptor}

/-- What an object does when it is called depends on its kind only. -/
theorem Store.IsReader.mono {f : ObjectId} (h : s.IsReader f)
    (hs : ∀ id o, s.get id = .ok o → ∃ o', s'.get id = .ok o' ∧ o'.kind = o.kind) :
    s'.IsReader f := by
  obtain ⟨o, ho, hreads⟩ := h
  obtain ⟨o', ho', hkind⟩ := hs f o ho
  exact ⟨o', ho', fun b hb => hreads b (hkind.symm.trans hb)⟩

theorem Descriptor.IsTame.mono (h : d.IsTame s key)
    (hs : ∀ f, s.IsReader f → s'.IsReader f) : d.IsTame s' key := by
  cases d with
  | data => exact fun hkey f hf => hs f (h hkey f hf)
  | accessor => exact ⟨h.1, fun f hf => hs f (h.2 f hf)⟩

theorem Object.IsPlain.isTame (h : o.IsPlain) (s : Store) : o.IsTame s := by
  intro key d hd
  obtain ⟨hdata, hkey⟩ := h.properties key d hd
  cases d with
  | data => exact fun hasked => by simp [hkey] at hasked
  | accessor => cases hdata

/-- What an array does first gives it no property but its length. -/
theorem Object.Prepares.own?_cases (h : o.Prepares u) (hd : u.own? key = some d) :
    o.own? key = some d ∨ key = .length ∧ d.isData = true := by
  cases h with
  | same => exact .inl hd
  | lengthened =>
    rw [own?, Table.find?_insert] at hd
    split at hd
    · next hkey => exact .inr ⟨hkey.symm, by cases hd; rfl⟩
    · exact .inl hd
  | truncated => exact .inl (Table.find?_filter_iff.mp hd).1

/-- What an object has after a property was defined, it had before, or it is that property, or a
length. -/
theorem Object.own?_define_cases {key' : Key} {d' : Descriptor}
    (h : (o.define key d).1.own? key' = some d') :
    o.own? key' = some d' ∨ (key' = key ∧ d' = d) ∨ (key' = .length ∧ d'.isData = true) := by
  rw [define_eq] at h
  split at h
  · next o' hdefine =>
    obtain ⟨-, u, hu, rfl⟩ := define?_cases hdefine
    dsimp only at h
    rw [own?, Table.find?_insert] at h
    split at h
    · next hkey => exact .inr (.inl ⟨hkey.symm, (Option.some.inj h).symm⟩)
    · exact (hu.own?_cases h).imp_right .inr
  · exact .inl h

theorem Object.IsPlain.define (h : o.IsPlain) (hd : d.isData = true) (hkey : key.isAsked = false) :
    (o.define key d).1.IsPlain where
  kind := by rw [kind_define, h.kind]
  properties key' d' h' := by
    obtain h' | ⟨rfl, rfl⟩ | ⟨rfl, hdata⟩ := own?_define_cases h'
    · exact h.properties key' d' h'
    · exact ⟨hd, hkey⟩
    · exact ⟨hdata, by decide⟩

theorem Object.isPlain_new {prototype : Option ObjectId} {kind : Kind}
    (h : kind.isFunction = false) : Object.IsPlain { prototype, kind } :=
  ⟨h, fun _ _ hd => by cases hd⟩

end Tame

/-! ## Realms over a base -/

/-- A tame realm in which actions begin. -/
structure Base where
  realm : Realm
  tame : realm.store.IsTame
  /-- Actions may also note paths, references and events. -/
  noting : Bool
  /-- Noting is safe where no function has a recorded source that would be asked for. -/
  unregistered : noting = true → realm.registry = {}

namespace Base

/-- The base with objects and symbols added. -/
structure Over (b : Base) (r : Realm) : Prop where
  size : b.realm.store.size ≤ r.store.size
  objects : ∀ id o, b.realm.store.get id = .ok o → r.store.get id = .ok o
  added : ∀ id o, r.store.get id = .ok o →
    b.realm.store.get id = .ok o ∨ b.realm.store.size ≤ id ∧ o.IsPlain
  descriptions : ∀ (id : SymbolId) (d : Option String),
    b.realm.symbols.descriptions[id]? = some d → r.symbols.descriptions[id]? = some d
  shared : ∀ key id, b.realm.symbols.byKey.find? key = some id →
    r.symbols.byKey.find? key = some id
  rest : r = { b.realm with
    store := r.store, symbols := r.symbols, depth := r.depth, hostPaths := r.hostPaths,
    references := r.references, events := r.events }
  noted : b.noting = false → r.hostPaths = b.realm.hostPaths ∧
    r.references = b.realm.references ∧ r.events = b.realm.events

variable {b : Base} {r : Realm}

theorem over_self (b : Base) : b.Over b.realm :=
  ⟨le_rfl, fun _ _ h => h, fun _ _ h => .inl h, fun _ _ h => h, fun _ _ h => h, rfl,
    fun _ => ⟨rfl, rfl, rfl⟩⟩

/-- What is called for the properties of an object is in the base. -/
theorem Over.isTame (h : b.Over r) {id : ObjectId} {o : Object} (ho : r.store.get id = .ok o) :
    o.IsTame b.realm.store := by
  obtain ho | ⟨-, hplain⟩ := h.added id o ho
  · exact b.tame id o ho
  · exact hplain.isTame _

/-- What is added to a tame realm leaves it tame. -/
theorem Over.tame (h : b.Over r) : r.store.IsTame :=
  fun _ _ ho key d hd => (h.isTame ho key d hd).mono fun _ hf =>
    hf.mono fun id o ho => ⟨o, h.objects id o ho, rfl⟩

theorem Over.withDepth (h : b.Over r) (depth : ℕ) : b.Over { r with depth } where
  __ := h
  rest := by rw [h.rest]

theorem Over.alloc (h : b.Over r) {kind : Kind} (hkind : kind.isFunction = false)
    (prototype : Option ObjectId) :
    b.Over { r with store := ⟨r.store.objects.push { prototype, kind }⟩ } where
  __ := h
  size := by
    rw [Store.size_push]
    exact Nat.le_succ_of_le h.size
  objects id o ho := Store.get_push (h.objects id o ho)
  added id o ho := by
    obtain ho | ⟨rfl, rfl⟩ := Store.get_push_cases ho
    · exact h.added id o ho
    · exact .inr ⟨h.size, Object.isPlain_new hkind⟩
  rest := by rw [h.rest]

/-- An object that is no part of the base may become another plain one. -/
theorem Over.set (h : b.Over r) {id : ObjectId} (hid : b.realm.store.size ≤ id) {o : Object}
    (ho : o.IsPlain) : b.Over { r with store := r.store.set id o } where
  __ := h
  size := by
    rw [Store.size_set]
    exact h.size
  objects id' o' ho' := by
    rw [Store.get_set_of_ne]
    · exact h.objects id' o' ho'
    · rintro rfl
      exact absurd (Store.lt_size_of_get ho') (not_lt_of_ge hid)
  added id' o' ho' := by
    obtain ⟨rfl, rfl⟩ | ho' := Store.get_set_cases ho'
    · exact .inr ⟨hid, ho⟩
    · exact h.added id' o' ho'
  rest := by rw [h.rest]

theorem Over.withSymbols (h : b.Over r) {symbols : Symbols}
    (hdescriptions : ∀ (id : SymbolId) (d : Option String),
      r.symbols.descriptions[id]? = some d → symbols.descriptions[id]? = some d)
    (hshared : ∀ key id, r.symbols.byKey.find? key = some id →
      symbols.byKey.find? key = some id) : b.Over { r with symbols } where
  __ := h
  descriptions id d hd := hdescriptions id d (h.descriptions id d hd)
  shared key id hk := hshared key id (h.shared key id hk)
  rest := by rw [h.rest]

/-- Where that is allowed, paths, references and events may become others. -/
theorem Over.withNotes (h : b.Over r) (hb : b.noting = true) (hostPaths : HostPaths)
    (references : References) (events : EventLog) :
    b.Over { r with hostPaths, references, events } where
  __ := h
  rest := by rw [h.rest]
  noted hn := by
    rw [hb] at hn
    cases hn

end Base

/-! ## Actions -/

variable {α β σ : Type} {b : Base}

/-- Begun over the base, the action leaves a realm over it. As many calls are running afterwards as
before, unless the bound on the work was too low, and a value that it ends with is as told. -/
def Base.Gives (b : Base) (x : Run α) (Q : α → Prop) : Prop :=
  ∀ r out r', b.Over r → r.run x = (out, r') →
    b.Over r' ∧ (out ≠ .error .outOfFuel → r'.depth = r.depth) ∧ ∀ a, out = .ok a → Q a

/-- Begun over the base, the action leaves a realm over it. -/
def Base.Adds (b : Base) (x : Run α) : Prop := b.Gives x fun _ => True

namespace Base

variable {x : Run α} {f : α → Run β} {Q Q' : α → Prop} {P : β → Prop}

theorem Gives.mono (hx : b.Gives x Q) (h : ∀ a, Q a → Q' a) : b.Gives x Q' := by
  intro r out r' hr hrun
  obtain ⟨hover, hdepth, hout⟩ := hx r out r' hr hrun
  exact ⟨hover, hdepth, fun a ha => h a (hout a ha)⟩

/-- What the action leaves is over the base, however it ends. -/
theorem Adds.over {r : Realm} (hx : b.Adds x) (hr : b.Over r) : b.Over (r.run x).2 :=
  (hx r _ _ hr rfl).1

theorem Gives.adds (hx : b.Gives x Q) : b.Adds x := hx.mono fun _ _ => trivial

theorem Gives.bind (hx : b.Gives x Q) (hf : ∀ a, Q a → b.Gives (f a) P) :
    b.Gives (x >>= f) P := by
  intro r out r' hr hrun
  rw [run_bind] at hrun
  rcases h₁ : r.run x with ⟨e | a, r₁⟩
  · rw [h₁] at hrun
    cases hrun
    obtain ⟨hover, hdepth, -⟩ := hx r _ r' hr h₁
    exact ⟨hover, fun hne => hdepth fun he => hne (by cases he; rfl), nofun⟩
  · rw [h₁] at hrun
    obtain ⟨hover, hdepth, ha⟩ := hx r _ r₁ hr h₁
    obtain ⟨hover', hdepth', hout⟩ := hf a (ha a rfl) r₁ out r' hover hrun
    exact ⟨hover', fun hne => (hdepth' hne).trans (hdepth nofun), hout⟩

theorem Gives.bind_adds (hx : b.Gives x Q) (hf : ∀ a, Q a → b.Adds (f a)) : b.Adds (x >>= f) :=
  hx.bind hf

/-- After an action of whose value nothing is known. -/
theorem Adds.bind_gives (hx : b.Adds x) (hf : ∀ a, b.Gives (f a) P) : b.Gives (x >>= f) P :=
  Gives.bind hx fun a _ => hf a

theorem Adds.bind (hx : b.Adds x) (hf : ∀ a, b.Adds (f a)) : b.Adds (x >>= f) :=
  hx.bind_gives hf

/-! ### Primitive actions -/

theorem Gives.pure {a : α} (h : Q a) : b.Gives (Pure.pure a) Q := by
  rintro r out r' hr hrun
  cases hrun
  exact ⟨hr, fun _ => rfl, fun a' ha => by cases ha; exact h⟩

theorem Adds.pure (a : α) : b.Adds (Pure.pure a) := Gives.pure trivial

theorem gives_throw (fault : Fault) (Q : α → Prop) : b.Gives (throw fault) Q := by
  rintro r out r' hr hrun
  cases hrun
  exact ⟨hr, fun _ => rfl, nofun⟩

theorem adds_throw (fault : Fault) : b.Adds (throw fault : Run α) := gives_throw fault _

theorem adds_raise (cause : EngineError) : b.Adds (raise cause : Run α) := gives_throw _ _

theorem gives_get : b.Gives (get : Run Realm) b.Over := by
  rintro r out r' hr hrun
  cases hrun
  exact ⟨hr, fun _ => rfl, fun a ha => by cases ha; exact hr⟩

theorem adds_get : b.Adds (get : Run Realm) := gives_get.adds

theorem gives_modifyGet {f : Realm → α × Realm}
    (h : ∀ r, b.Over r → b.Over (f r).2 ∧ (f r).2.depth = r.depth ∧ Q (f r).1) :
    b.Gives (modifyGet f) Q := by
  rintro r out r' hr hrun
  cases hrun
  obtain ⟨hover, hdepth, hvalue⟩ := h r hr
  exact ⟨hover, fun _ => hdepth, fun a ha => by cases ha; exact hvalue⟩

theorem adds_modify {f : Realm → Realm}
    (h : ∀ r, b.Over r → b.Over (f r) ∧ (f r).depth = r.depth) : b.Adds (modify f) :=
  gives_modifyGet (f := fun r => ((), f r)) fun r hr => ⟨(h r hr).1, (h r hr).2, trivial⟩

theorem adds_ofExcept (x : Except EngineError α) : b.Adds (ofExcept x) := by
  cases x with
  | ok a => exact Adds.pure a
  | error cause => exact adds_raise cause

/-- Reading the store gives what is so of every store over the base. -/
theorem gives_ofStore {read : Store → Except HeapError α}
    (h : ∀ r a, b.Over r → read r.store = .ok a → Q a) : b.Gives (ofStore read) Q :=
  gives_get.bind fun r hr => by
    split
    · next a ha => exact Gives.pure (h r a hr ha)
    · exact gives_throw _ _

theorem adds_ofStore (read : Store → Except HeapError α) : b.Adds (ofStore read) :=
  gives_ofStore fun _ _ _ _ => trivial

theorem gives_ofRealm {read : Realm → Except HeapError α}
    (h : ∀ r a, b.Over r → read r = .ok a → Q a) : b.Gives (ofRealm read) Q :=
  gives_get.bind fun r hr => by
    split
    · next a ha => exact Gives.pure (h r a hr ha)
    · exact gives_throw _ _

theorem adds_ofRealm (read : Realm → Except HeapError α) : b.Adds (ofRealm read) :=
  gives_ofRealm fun _ _ _ _ => trivial

theorem gives_changeStore {change : Store → Except HeapError (Store × α)}
    (h : ∀ r s a, b.Over r → change r.store = .ok (s, a) → b.Over { r with store := s } ∧ Q a) :
    b.Gives (changeStore change) Q := by
  intro r out r' hr hrun
  have hget : r.run get = (.ok r, r) := rfl
  unfold changeStore at hrun
  simp only [run_bind, hget] at hrun
  split at hrun
  · next s a hs =>
    obtain ⟨hover, hvalue⟩ := h r s a hr hs
    cases hrun
    exact ⟨hover, fun _ => rfl, fun a' ha => by cases ha; exact hvalue⟩
  · cases hrun
    exact ⟨hr, fun _ => rfl, nofun⟩

/-! ### Actions made of actions -/

theorem Adds.attempt (hx : b.Adds x) : b.Adds (Stasis.attempt x) := by
  intro r out r' hr hrun
  rw [run_attempt] at hrun
  rcases h₁ : r.run x with ⟨(cause | _) | a, r₁⟩ <;> rw [h₁] at hrun <;> cases hrun <;>
    obtain ⟨hover, hdepth, -⟩ := hx r _ _ hr h₁
  · exact ⟨hover, fun _ => hdepth nofun, fun _ _ => trivial⟩
  · exact ⟨hover, fun hne => absurd rfl hne, fun _ _ => trivial⟩
  · exact ⟨hover, fun _ => hdepth nofun, fun _ _ => trivial⟩

theorem Adds.nested (hx : b.Adds x) : b.Adds (Stasis.nested x) := by
  intro r out r' hr hrun
  have hmodify : ∀ (g : Realm → Realm) (r : Realm), r.run (modify g) = (.ok (), g r) :=
    fun _ _ => rfl
  have hget : r.run get = (.ok r, r) := rfl
  unfold Stasis.nested at hrun
  simp only [run_bind, hget] at hrun
  split at hrun
  · cases hrun
    exact ⟨hr, fun _ => rfl, nofun⟩
  · simp only [run_bind, hmodify, run_attempt] at hrun
    -- however the call ends, the realm gets back its depth, unless the bound was too low
    rcases h₁ : Realm.run { r with depth := r.depth + 1 } x with ⟨(cause | _) | a, r₁⟩ <;>
      rw [h₁] at hrun <;> cases hrun <;>
        obtain ⟨hover, hdepth, -⟩ := hx _ _ _ (hr.withDepth _) h₁
    · exact ⟨hover.withDepth _, fun _ => congrArg (· - 1) (hdepth nofun), nofun⟩
    · exact ⟨hover, fun hne => absurd rfl hne, nofun⟩
    · exact ⟨hover.withDepth _, fun _ => congrArg (· - 1) (hdepth nofun), fun _ _ => trivial⟩

/-- An action for each member of a list. -/
theorem adds_mapM_mem {f : α → Run β} {l : List α} (h : ∀ a ∈ l, b.Adds (f a)) :
    b.Adds (l.mapM f) := by
  induction l with
  | nil => exact Adds.pure _
  | cons a l ih =>
    rw [List.mapM_cons]
    exact (h a List.mem_cons_self).bind fun _ =>
      (ih fun a ha => h a (List.mem_cons_of_mem _ ha)).bind fun _ => Adds.pure _

theorem adds_mapM {f : α → Run β} (h : ∀ a, b.Adds (f a)) (l : List α) : b.Adds (l.mapM f) :=
  adds_mapM_mem fun a _ => h a

/-- A loop whose body adds for each member of the list. -/
theorem adds_forIn {f : α → σ → Run (ForInStep σ)} {l : List α}
    (h : ∀ a ∈ l, ∀ s, b.Adds (f a s)) : ∀ s, b.Adds (forIn l s f) := by
  induction l with
  | nil => exact fun s => Adds.pure _
  | cons a l ih =>
    intro s
    rw [List.forIn_cons]
    refine (h a List.mem_cons_self s).bind fun next => ?_
    cases next with
    | done s => exact Adds.pure s
    | yield s => exact ih (fun a ha => h a (List.mem_cons_of_mem _ ha)) s

end Base

end Stasis
