import Mathlib
import Stasis.Proofs.Adds.Basic
import Stasis.Proofs.Keys

/-!
# Reading a realm only adds

* `TameMachine`: a machine whose requests only add, as far as paths make them.
* `Base.gives_getFrom`: what is read under a key by which functions are called only reads.
* `Base.adds_toKey`, `Base.adds_iterated`, …: conversions, iterations and variables.
-/

namespace Stasis

variable {α : Type}

/-- The value cannot be called, or it is a built-in function that only reads. -/
def Base.IsHarmless (b : Base) (v : Value) : Prop :=
  ∀ f, v = .object f → b.realm.store.IsReader f

/-- A machine that carries out the requests of paths so that they only add. -/
class TameMachine (b : Base) [machine : Machine] : Prop where
  eval : ∀ e name env, isAccessPath e = true → b.Adds (machine.run (.eval e name env))
  call : ∀ f this args, b.IsHarmless f → b.Adds (machine.run (.call f this args))
  suspend : b.noting = true → ∀ pass v path, b.Adds (machine.run (.suspend pass v path))

/-- No function is looked up by a number to be called. -/
theorem isAsked_ofIndex (n : ℕ) : (Key.ofIndex n).isAsked = false := by
  have hdigits := Object.all_isDigit_toString n
  rw [Bool.eq_false_iff]
  intro hasked
  simp only [Key.ofIndex, Key.isAsked, isReflective, List.contains_eq_mem, List.mem_cons,
    List.not_mem_nil, or_false, Bool.or_eq_true, decide_eq_true_eq, beq_iff_eq] at hasked
  obtain (h | h | h | h | h) | h := hasked <;> rw [h] at hdigits <;> cases hdigits

namespace Base

variable {b : Base}

/-! ## Objects -/

/-- A new object is no part of the base. -/
theorem gives_allocate (prototype : Option ObjectId) {kind : Kind}
    (h : kind.isFunction = false) :
    b.Gives (allocate prototype kind) fun id => b.realm.store.size ≤ id :=
  gives_modifyGet fun _ hr => ⟨hr.alloc h prototype, rfl, hr.size⟩

theorem adds_allocate (prototype : Option ObjectId) {kind : Kind} (h : kind.isFunction = false) :
    b.Adds (allocate prototype kind) :=
  (gives_allocate prototype h).adds

theorem gives_objectAt (id : ObjectId) :
    b.Gives (objectAt id) fun o => b.realm.store.get id = .ok o ∨
      b.realm.store.size ≤ id ∧ o.IsPlain :=
  gives_ofStore fun _ o hr ho => hr.added id o ho

theorem adds_objectAt (id : ObjectId) : b.Adds (objectAt id) := adds_ofStore _

theorem adds_kindOf (id : ObjectId) : b.Adds (kindOf id) :=
  (adds_objectAt id).bind fun _ => Adds.pure _

/-- An object that is no part of the base may get a property for which nothing is called. -/
theorem adds_define {id : ObjectId} {key : Key} {d : Descriptor}
    (hid : b.realm.store.size ≤ id) (hkey : key.isAsked = false) (hd : d.isData = true) :
    b.Adds (define id key d) := by
  refine gives_changeStore fun r s done hr hdefine => ⟨?_, trivial⟩
  obtain ⟨o, ho, rfl⟩ := Store.eq_set_of_define hdefine
  obtain hbase | ⟨-, hplain⟩ := hr.added id o ho
  · exact absurd (Store.lt_size_of_get hbase) (not_lt_of_ge hid)
  · exact hr.set hid (hplain.define hd hkey)

/-! ## Showing and throwing -/

theorem adds_display (v : Value) : b.Adds (display v) := by
  refine adds_get.bind fun r => ?_
  split
  · exact Adds.pure _
  · exact adds_throw _

theorem adds_displayKey (k : Key) : b.Adds (displayKey k) :=
  adds_get.bind fun _ => Adds.pure _

theorem adds_newError (kind : ErrorKind) (message : String) : b.Adds (newError kind message) := by
  unfold newError
  refine adds_get.bind fun r => (gives_allocate _ rfl).bind_adds fun id hid => ?_
  refine (adds_define hid rfl rfl).bind fun _ => ?_
  exact (adds_define hid rfl rfl).bind fun _ => Adds.pure id

/-- What throws gives no value, so anything is so of it. -/
theorem gives_throwNew (kind : ErrorKind) (message : String) (Q : α → Prop) :
    b.Gives (throwNew kind message) Q :=
  (adds_newError kind message).bind_gives fun _ => gives_throw _ Q

theorem adds_throwNew (kind : ErrorKind) (message : String) :
    b.Adds (throwNew kind message : Run α) :=
  gives_throwNew kind message _

theorem adds_throwType (message : String) : b.Adds (throwType message : Run α) :=
  adds_throwNew _ _

theorem adds_throwReference (message : String) : b.Adds (throwReference message : Run α) :=
  adds_throwNew _ _

theorem adds_throwRange (message : String) : b.Adds (throwRange message : Run α) :=
  adds_throwNew _ _

theorem adds_checkSize (size : Nat) (what : String) : b.Adds (checkSize size what) := by
  refine adds_get.bind fun r => ?_
  dsimp only
  split
  · exact (adds_throwRange _).bind fun _ => Adds.pure _
  · exact Adds.pure _

/-! ## Requests -/

section Requests

variable [Machine] [TameMachine b]

theorem adds_eval {e : Script.Expr} (h : isAccessPath e = true) (env : EnvId) :
    b.Adds (eval e env) := TameMachine.eval e none env h

theorem adds_call {f : Value} (h : b.IsHarmless f) (this : Value) (args : List Value) :
    b.Adds (call f this args) := TameMachine.call f this args h

end Requests

/-! ## Reading properties -/

theorem harmless_of_not_isObject {v : Value} (h : v.isObject = false) : b.IsHarmless v := by
  rintro f rfl
  cases h

/-- What is called for a property that is found, wherever that is, is in the base. -/
theorem gives_lookup (start : ObjectId) (key : Key) :
    b.Gives (ofStore fun s => s.lookup start key) fun found =>
      ∀ holder d, found = some (holder, d) → d.IsTame b.realm.store key := by
  refine gives_ofStore fun r found hr hfound => ?_
  rintro holder d rfl
  obtain ⟨o, ho, hd⟩ := Store.own?_of_lookupFrom hfound
  exact hr.isTame ho key d hd

/-- An element of a window is a number, or nothing. -/
theorem gives_element (id : ObjectId) (key : Key) :
    b.Gives (ofRealm fun r => r.element? id key) fun found =>
      ∀ v, found = some v → v.isObject = false := by
  refine gives_ofRealm fun r found _ hfound => ?_
  rintro v rfl
  unfold Realm.element? at hfound
  cases hi : key.arrayIndex? with
  | none => rw [hi] at hfound; cases hfound
  | some index =>
    simp only [hi, bind, Except.bind] at hfound
    split at hfound
    · cases hfound
    · split at hfound
      · split at hfound
        · cases hfound
          rfl
        · split at hfound
          · cases hfound
          · split at hfound <;> cases hfound <;> rfl
      · cases hfound

section Reading

variable [Machine] [TameMachine b]

/-- What is read under a key by which functions are called only reads. -/
theorem gives_getFrom (start : ObjectId) (key : Key) (receiver : Value) :
    b.Gives (getFrom start key receiver) fun v => key.isAsked = true → b.IsHarmless v := by
  unfold getFrom
  refine (gives_element start key).bind fun element helement => ?_
  cases element with
  | some v => exact Gives.pure fun _ => harmless_of_not_isObject (helement v rfl)
  | none =>
    refine (gives_lookup start key).bind fun found hfound => ?_
    split
    · exact Gives.pure fun hkey f hf => hfound _ _ rfl hkey f hf
    · next holder getter _ _ _ =>
      obtain ⟨hkey, hhalves⟩ := hfound _ _ rfl
      have hgetter : b.IsHarmless (.object getter) := by
        rintro f ⟨⟩
        exact hhalves _ (.inl rfl)
      exact (adds_call hgetter receiver []).mono fun _ _ hasked => by simp [hkey] at hasked
    · exact Gives.pure fun _ => harmless_of_not_isObject rfl
    · exact Gives.pure fun _ => harmless_of_not_isObject rfl

theorem adds_getFrom (start : ObjectId) (key : Key) (receiver : Value) :
    b.Adds (getFrom start key receiver) :=
  (gives_getFrom start key receiver).adds

theorem adds_getOf (id : ObjectId) (name : String) : b.Adds (getOf id name) := adds_getFrom _ _ _

theorem gives_getProperty (base : Value) (key : Key) :
    b.Gives (getProperty base key) fun v => key.isAsked = true → b.IsHarmless v := by
  unfold getProperty
  have hprimitive : ∀ v : Value, v.isObject = false →
      b.Gives (Pure.pure v) fun v => key.isAsked = true → b.IsHarmless v :=
    fun v hv => Gives.pure fun _ => harmless_of_not_isObject hv
  have hrefuse : b.Gives (do
      throwType ("Cannot read properties of " ++ (← display base) ++ " (reading '"
        ++ (← displayKey key) ++ "')")) fun v => key.isAsked = true → b.IsHarmless v :=
    (adds_display base).bind_gives fun _ => (adds_displayKey key).bind_gives fun _ =>
      gives_throwNew _ _ _
  split
  · exact gives_getFrom _ _ _
  · exact hrefuse
  · exact hrefuse
  · split
    · exact hprimitive _ rfl
    · split
      · split <;> exact hprimitive _ rfl
      · exact adds_get.bind_gives fun _ => gives_getFrom _ _ _
  · refine adds_get.bind_gives fun r => ?_
    split
    · exact gives_getFrom _ _ _
    · exact hprimitive _ rfl

theorem adds_getProperty (base : Value) (key : Key) : b.Adds (getProperty base key) :=
  (gives_getProperty base key).adds

theorem adds_getNamed (base : Value) (name : String) : b.Adds (getNamed base name) :=
  adds_getProperty _ _

end Reading

/-! ## Converting values -/

theorem adds_primitiveNumber (v : Value) : b.Adds (primitiveNumber v) := by
  cases v <;> first | exact Adds.pure _ | exact adds_throwType _

theorem adds_primitiveText (v : Value) : b.Adds (primitiveText v) := by
  cases v <;> first | exact Adds.pure _ | exact adds_throwType _

theorem adds_toObject (v : Value) : b.Adds (toObject v) := by
  unfold toObject
  split
  · exact Adds.pure _
  · exact adds_throwType _
  · exact adds_throwType _
  · exact adds_get.bind fun _ => adds_allocate _ rfl

section Converting

variable [Machine] [TameMachine b]

/-- Objects are asked by methods that only read. -/
theorem adds_askMethods (id : ObjectId) {names : List String}
    (h : ∀ name ∈ names, Key.isAsked (.text name) = true) : b.Adds (askMethods id names) := by
  induction names with
  | nil => exact adds_throwType _
  | cons name rest ih =>
    obtain ⟨hname, hrest⟩ := List.forall_mem_cons.mp h
    refine (gives_getFrom id (.text name) (.object id)).bind_adds fun method hmethod => ?_
    refine adds_get.bind fun r => ?_
    split
    · refine (adds_call (hmethod hname) (.object id) []).bind fun answer => ?_
      split
      · exact ih hrest
      · exact Adds.pure _
    · exact ih hrest

theorem adds_toPrimitive (v : Value) (hint : Hint) : b.Adds (toPrimitive v hint) := by
  unfold toPrimitive
  split
  · next id => exact adds_askMethods id (by cases hint <;> decide)
  · exact Adds.pure v

theorem adds_toNumber (v : Value) : b.Adds (toNumber v) :=
  (adds_toPrimitive v .number).bind fun _ => adds_primitiveNumber _

theorem adds_toText (v : Value) : b.Adds (toText v) :=
  (adds_toPrimitive v .text).bind fun _ => adds_primitiveText _

theorem adds_toKey (v : Value) : b.Adds (toKey v) := by
  refine (adds_toPrimitive v .text).bind fun primitive => ?_
  split
  · exact Adds.pure _
  · exact (adds_primitiveText _).bind fun _ => Adds.pure _

end Converting

/-! ## New objects -/

/-- An object that is no part of the base may get a property for which nothing is called. -/
theorem adds_defineOrThrow {id : ObjectId} {key : Key} {d : Descriptor}
    (hid : b.realm.store.size ≤ id) (hkey : key.isAsked = false) (hd : d.isData = true) :
    b.Adds (defineOrThrow id key d) := by
  refine (adds_objectAt id).bind fun o => (adds_define hid hkey hd).bind fun done => ?_
  split
  · exact Adds.pure _
  · split
    · exact (adds_displayKey key).bind fun _ => adds_throwType _
    · exact (adds_displayKey key).bind fun _ => adds_throwType _

theorem adds_addProperty {id : ObjectId} {key : Key} (hid : b.realm.store.size ≤ id)
    (hkey : key.isAsked = false) (v : Value) : b.Adds (addProperty id key v) :=
  adds_defineOrThrow hid hkey rfl

theorem gives_newObject : b.Gives newObject fun id => b.realm.store.size ≤ id :=
  adds_get.bind_gives fun _ => gives_allocate _ rfl

theorem gives_newArray (items : List Value) :
    b.Gives (newArray items) fun id => b.realm.store.size ≤ id := by
  unfold newArray
  refine adds_get.bind_gives fun r => (gives_allocate _ rfl).bind fun id hid => ?_
  refine (adds_define hid rfl rfl).bind_gives fun _ => ?_
  refine Adds.bind_gives (adds_forIn (fun item _ _ => ?_) _) fun _ => Gives.pure hid
  exact (adds_define hid (isAsked_ofIndex _) rfl).bind fun _ => Adds.pure _

theorem adds_newArray (items : List Value) : b.Adds (newArray items) := (gives_newArray items).adds

section Arrays

variable [Machine] [TameMachine b]

/-- An array that is no part of the base may get another length. -/
theorem adds_setLength {id : ObjectId} (hid : b.realm.store.size ≤ id) (v : Value) :
    b.Adds (setProperty (.object id) .length v) := by
  unfold setProperty
  refine (adds_kindOf id).bind fun kind => ?_
  have hlength : Key.length.arrayIndex? = none := by decide
  simp only [hlength]
  refine (gives_lookup id .length).bind_adds fun found hfound => ?_
  split
  · next holder _ writable enumerable configurable =>
    have hwrite : b.Adds (if holder = id then
        defineOrThrow id .length (.data v writable enumerable configurable)
        else addProperty id .length v) := by
      split
      · exact adds_defineOrThrow hid rfl rfl
      · exact adds_addProperty hid rfl v
    split
    · exact (adds_displayKey _).bind fun _ => (adds_throwType _).bind fun _ => hwrite
    · exact hwrite
  · next setter _ _ =>
    have hsetter : b.IsHarmless (.object setter) := by
      rintro f ⟨⟩
      exact (hfound _ _ rfl).2 _ (.inr rfl)
    exact (adds_call hsetter _ _).bind fun _ => Adds.pure _
  · exact (adds_displayKey _).bind fun _ => adds_throwType _
  · exact adds_addProperty hid rfl v

theorem adds_arrayItems (id : ObjectId) : b.Adds (arrayItems id) := by
  refine (adds_getOf id "length").bind fun length => (adds_toNumber length).bind fun x => ?_
  exact (adds_checkSize _ _).bind fun _ => adds_mapM (fun _ => adds_getFrom _ _ _) _

theorem adds_iterated (v : Value) : b.Adds (iterated v) := by
  have hrefuse : b.Adds (do throwType ((← display v) ++ " is not iterable") : Run (List Value)) :=
    (adds_display v).bind fun _ => adds_throwType _
  unfold iterated
  split
  · exact Adds.pure _
  · next id =>
    refine (adds_kindOf id).bind fun kind => ?_
    split
    · exact adds_arrayItems id
    · exact adds_arrayItems id
    · exact adds_mapM (fun _ => (adds_newArray _).bind fun _ => Adds.pure _) _
    · exact Adds.pure _
    · exact hrefuse
  · exact hrefuse

end Arrays

/-! ## Variables -/

theorem adds_environmentAt (id : EnvId) : b.Adds (environmentAt id) := by
  refine adds_get.bind fun r => ?_
  split
  · exact Adds.pure _
  · exact adds_raise _

theorem adds_holderOf (id : EnvId) (name : String) : b.Adds (holderOf id name) := by
  refine (adds_ofRealm _).bind fun holder => ?_
  split
  · exact Adds.pure _
  · exact adds_throwReference _

theorem adds_readVariable [Machine] [TameMachine b] (id : EnvId) (name : String) :
    b.Adds (readVariable id name) := by
  refine (adds_holderOf id name).bind fun holder => (adds_environmentAt holder).bind fun e => ?_
  split
  · exact adds_getOf _ _
  · exact Adds.pure _
  · exact adds_throwReference _

end Base

end Stasis
