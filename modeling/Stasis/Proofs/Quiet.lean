import Mathlib
import Stasis.Proofs.Behaves.Suspend
import Stasis.Proofs.Change
import Stasis.Proofs.Undisturbed

/-!
# Quiet envelopes are read without disturbing anything

* `upholds_resolveEntry`, `preserves_resolveTagged`: what a session makes is new.
* `preserves_linkEntry`: only new objects are linked.
* `quietMachine_engine`: this holds however deep the reading goes.
* `undisturbed_of_deserialize`: reading a quiet envelope disturbs nothing.
-/

namespace Stasis

variable {α : Type} {b : Realm} {entries : Table String Entry} {id : ObjectId}

/-! ## Objects -/

theorem upholds_allocate (prototype : Option ObjectId) (kind : Kind) :
    Upholds (b.Reading entries) (allocate prototype kind) fun id => b.store.size ≤ id :=
  upholds_modifyGet fun _ hr => ⟨hr.push _, hr.grows.size⟩

theorem preserves_define (hid : b.store.size ≤ id) (key : Key) (d : Descriptor) :
    Preserves (b.Reading entries) (define id key d) := by
  refine upholds_changeStore fun r store done hr hdefine => ⟨?_, trivial⟩
  obtain ⟨o, -, rfl⟩ := Store.eq_set_of_define hdefine
  exact hr.set hid _

theorem preserves_changeObject (hid : b.store.size ≤ id) (f : Object → Object) :
    Preserves (b.Reading entries) (changeStore fun s => do return (← s.modify id f, ())) := by
  refine upholds_changeStore fun r store done hr hchange => ⟨?_, trivial⟩
  cases hmodify : r.store.modify id f with
  | error => rw [hmodify] at hchange; cases hchange
  | ok s =>
    rw [hmodify] at hchange
    cases hchange
    obtain ⟨o, -, rfl⟩ := Store.eq_set_of_modify hmodify
    exact hr.set hid _

theorem preserves_setKind (hid : b.store.size ≤ id) (kind : Kind) :
    Preserves (b.Reading entries) (setKind id kind) :=
  preserves_changeObject hid _

theorem preserves_setPrototype (hid : b.store.size ≤ id) (prototype : Option ObjectId) :
    Preserves (b.Reading entries) (changeStore fun s => s.setPrototype id prototype) := by
  refine upholds_changeStore fun r store done hr hlink => ⟨?_, trivial⟩
  obtain rfl | ⟨o, -, -, -, rfl⟩ := Store.eq_set_of_setPrototype hlink
  · exact hr
  · exact hr.set hid _

theorem upholds_newObject :
    Upholds (b.Reading entries) newObject fun id => b.store.size ≤ id :=
  upholds_get.bind fun _ _ => upholds_allocate _ _

theorem upholds_newArray :
    Upholds (b.Reading entries) (newArray []) fun id => b.store.size ≤ id := by
  refine upholds_get.bind fun r _ => (upholds_allocate _ _).bind fun id hid => ?_
  exact (preserves_define hid _ _).bind fun _ => (preserves_forIn (by simp) _).bind fun _ =>
    Upholds.pure hid

theorem upholds_newError (kind : ErrorKind) (message : String) :
    Upholds (b.Reading entries) (newError kind message) fun id => b.store.size ≤ id := by
  refine upholds_get.bind fun r _ => (upholds_allocate _ _).bind fun id hid => ?_
  exact (preserves_define hid _ _).bind fun _ => (preserves_define hid _ _).bind fun _ =>
    Upholds.pure hid

/-- What throws gives no value, so anything is so of it. -/
theorem upholds_throwType (message : String) (Q : α → Prop) :
    Upholds (b.Reading entries) (throwType message) Q :=
  (upholds_newError _ _).preserves.bind fun _ => upholds_raise _ Q

theorem preserves_defineOrThrow (hid : b.store.size ≤ id) (key : Key) (d : Descriptor) :
    Preserves (b.Reading entries) (defineOrThrow id key d) := by
  unfold defineOrThrow
  refine (preserves_objectAt id).bind fun o => (preserves_define hid key d).bind fun done => ?_
  split
  · exact Preserves.pure _
  · split <;> exact (preserves_displayKey key).bind fun _ => upholds_throwType _ _

/-- An object that is made for a primitive value is new. -/
theorem upholds_toObject {v : Value} (hv : v.isObject = false) :
    Upholds (b.Reading entries) (toObject v) fun id => b.store.size ≤ id := by
  cases v with
  | object => cases hv
  | undefined | null => exact upholds_throwType _ _
  | _ => exact upholds_get.bind fun _ _ => upholds_allocate _ _

theorem upholds_newPromise (state : PromiseState) :
    Upholds (b.Reading entries) (newPromise state) fun id => b.store.size ≤ id :=
  upholds_get.bind fun _ _ => upholds_allocate _ _

theorem upholds_newBuffer (buffer : Buffer) :
    Upholds (b.Reading entries) (newBuffer buffer) fun id => b.store.size ≤ id :=
  upholds_get.bind fun _ _ => upholds_allocate _ _

theorem Realm.isNew_object (hid : b.store.size ≤ id) : b.IsNew (.object id) := by
  rintro _ ⟨⟩
  exact hid

/-- The value of an action that gives a new object. -/
theorem Upholds.object {x : Run ObjectId}
    (hx : Upholds (b.Reading entries) x fun id => b.store.size ≤ id) :
    Upholds (b.Reading entries) (do return Value.object (← x)) b.IsNew :=
  hx.bind fun _ hid => Upholds.pure (Realm.isNew_object hid)

/-! ## The session -/

theorem upholds_refuse (detail : String) (Q : α → Prop) :
    Upholds (b.Reading entries) (refuse detail) Q :=
  upholds_raise _ Q

/-- What is done unless it is refused. -/
theorem upholds_refuse_bind {c : Prop} [Decidable c] {detail : String} {rest : Unit → Run α}
    {Q : α → Prop} (hrest : ¬ c → Upholds (b.Reading entries) (rest ()) Q) :
    Upholds (b.Reading entries) (if c then refuse detail >>= rest else rest ()) Q := by
  split
  · exact (upholds_refuse detail fun _ => False).bind fun _ => False.elim
  · next hc => exact hrest hc

theorem upholds_sessionAt : Upholds (b.Reading entries) (sessionAt b.sessions.size) fun S =>
    S.entries = entries ∧ ∀ reference v, S.made.find? reference = some v → b.IsNew v := by
  refine upholds_get.bind fun r hr => ?_
  obtain ⟨S, hS, hentries, hnew⟩ := hr.session
  rw [hS, Array.getElem?_push_size]
  exact Upholds.pure ⟨hentries, hnew⟩

theorem preserves_changeSession {f : Session → Session}
    (hentries : ∀ S, (f S).entries = S.entries)
    (hmade : ∀ S reference v, (f S).made.find? reference = some v →
      S.made.find? reference = some v ∨ b.IsNew v) :
    Preserves (b.Reading entries) (changeSession b.sessions.size f) :=
  preserves_modify fun _ hr => hr.getsOn hentries hmade

theorem upholds_typeNamed (name : String) :
    Upholds (b.Reading entries) (typeNamed name) fun type? => ∀ type, type? = some type →
      type.name = name := by
  refine upholds_get.bind fun r _ => ?_
  split
  · exact Upholds.pure nofun
  · next t ht =>
    refine Upholds.pure ?_
    rintro _ ⟨⟩
    have hmem : t ∈ r.objectTypes.filter fun t => t.name == name := by simp [ht]
    exact beq_iff_eq.mp (List.mem_filter.mp hmem).2
  · exact upholds_raise _ _

theorem upholds_readPayload (type : ObjectType) (j : Json) :
    Upholds (b.Reading entries) (readPayload type j) fun p => Payload.ofJson? type j = some p := by
  unfold readPayload
  split
  · next p hp => exact Upholds.pure hp
  · exact upholds_refuse _ _

/-! ## Values -/

theorem preserves_simpleValue (j : Json) : Preserves (b.Reading entries) (simpleValue j) := by
  cases j with
  | array | object => exact upholds_refuse _ _
  | _ => exact Preserves.pure _

theorem preserves_resumedSymbol (reference : String) (description : Option String) :
    Preserves (b.Reading entries) (resumedSymbol reference description) := by
  refine upholds_modifyGet fun r hr => ⟨?_, trivial⟩
  split
  · exact hr
  · exact hr.bind reference description

theorem preserves_sharedSymbol (key : String) : Preserves (b.Reading entries) (sharedSymbol key) :=
  upholds_modifyGet fun _ hr => ⟨hr.shared key, trivial⟩

/-- A machine that reads quiet values in the session without disturbing anything. -/
class QuietMachine (b : Realm) (entries : Table String Entry) [machine : Machine] : Prop where
  resolve : ∀ t : Tagged, t.IsQuiet b.hostPaths →
    Preserves (b.Reading entries) (machine.run (.resolve b.sessions.size t))
  path : ∀ id path, b.hostPaths.pathOf? id = some path →
    Preserves (b.Reading entries) (resolvePath path)

section Machine

variable [Machine] [QuietMachine b entries]

theorem preserves_resolve {t : Tagged} (ht : t.IsQuiet b.hostPaths) :
    Preserves (b.Reading entries) (resolve b.sessions.size t) := QuietMachine.resolve t ht

/-! ## Bare objects -/

omit [Machine] [QuietMachine b entries] in
theorem upholds_resumeBuffer (detached resizable : Bool) (length maxLength : ℕ) (content : String) :
    Upholds (b.Reading entries) (resumeBuffer detached resizable length maxLength content)
      b.IsNew := by
  unfold resumeBuffer
  split
  · exact upholds_refuse _ _
  · exact upholds_refuse_bind fun _ => upholds_refuse_bind fun _ => (upholds_newBuffer _).object

theorem upholds_resumeBytes {viewed : Tagged} (hviewed : viewed.IsQuiet b.hostPaths)
    (offset length : ℕ) :
    Upholds (b.Reading entries) (resumeBytes b.sessions.size viewed offset length) b.IsNew := by
  unfold resumeBytes
  refine (preserves_resolve hviewed).bind fun v => ?_
  cases v with
  | object buffer =>
    refine (preserves_kindOf buffer).bind fun kind => ?_
    cases kind with
    | buffer content =>
      exact upholds_refuse_bind fun _ => upholds_get.bind fun _ _ => (upholds_allocate _ _).object
    | _ => exact upholds_refuse _ _
  | _ => exact upholds_refuse _ _

/-- **A bare object is new.** -/
theorem upholds_bareObject {p : Payload} (hp : p.IsQuiet b.hostPaths) :
    Upholds (b.Reading entries) (bareObject b.sessions.size p) b.IsNew := by
  unfold bareObject
  cases p with
  | source | member | classPrototype => exact absurd hp.kind nofun
  | empty => exact Upholds.pure nofun
  | map | set | regexp | date => exact upholds_get.bind fun _ _ => (upholds_allocate _ _).object
  | wrapper t =>
    refine (preserves_resolve (hp.values t (by simp [Payload.values]))).bind fun inner => ?_
    refine upholds_refuse_bind fun hinner => (upholds_toObject ?_).object
    exact (Bool.or_eq_false_iff.mp (Bool.eq_false_iff.mpr hinner)).1
  | error message name stack =>
    refine upholds_get.bind fun r _ => (upholds_allocate _ _).bind fun id hid => ?_
    refine (preserves_defineOrThrow hid _ _).bind fun _ => ?_
    cases stack with
    | some s =>
      exact (preserves_defineOrThrow hid _ _).bind fun _ => Upholds.pure (Realm.isNew_object hid)
    | none => exact (Preserves.pure ()).bind fun _ => Upholds.pure (Realm.isNew_object hid)
  | pending => exact (upholds_newError _ _).preserves.bind fun _ => (upholds_newPromise _).object
  | fulfilled | rejected => exact (upholds_newPromise _).object
  | buffer => exact upholds_resumeBuffer _ _ _ _ _
  | bytes viewed => exact upholds_resumeBytes (hp.values viewed (by simp [Payload.values])) _ _

theorem upholds_bareEntry {e : Entry} (he : e.IsQuiet b.hostPaths) :
    Upholds (b.Reading entries) (bareEntry b.sessions.size e) b.IsNew := by
  unfold bareEntry
  split
  · exact upholds_newObject.object
  · refine (upholds_typeNamed _).bind fun type? htype => ?_
    split
    · exact upholds_raise _ _
    · exact upholds_newArray.object
    · exact upholds_get.bind fun _ _ => (upholds_allocate _ _).object
    · exact upholds_get.bind fun _ _ => (upholds_allocate _ _).object
    · next t _ _ _ =>
      refine (upholds_readPayload t _).bind fun p hp => ?_
      refine (upholds_bareObject (he.payload t p (htype t rfl) hp)).bind fun v hv => ?_
      exact upholds_refuse_bind fun _ => Upholds.pure hv

/-- **What a session makes is new.** -/
theorem upholds_resolveEntry (hentries : AreQuiet b.hostPaths entries) (reference : String) :
    Upholds (b.Reading entries) (resolveEntry b.sessions.size reference) b.IsNew := by
  unfold resolveEntry
  refine upholds_sessionAt.bind fun S hS => ?_
  split
  · next v hmade => exact Upholds.pure (hS.2 reference v hmade)
  · refine upholds_refuse_bind fun _ => ?_
    split
    · exact upholds_raise _ _
    · next e he =>
      have hquiet : e.IsQuiet b.hostPaths := hentries reference e (hS.1 ▸ he)
      refine Preserves.bind (preserves_changeSession (fun _ => rfl) fun _ _ _ => .inl) fun _ => ?_
      refine (upholds_bareEntry hquiet).attempt.bind fun outcome houtcome => ?_
      refine Preserves.bind (preserves_changeSession (fun _ => rfl) fun _ _ _ => .inl) fun _ => ?_
      refine (upholds_ofExcept houtcome).bind fun v hv => ?_
      refine Preserves.bind (preserves_changeSession (fun _ => rfl) fun S reference' v' hmade => ?_)
        fun _ => Upholds.pure hv
      rw [Table.find?_insert] at hmade
      split at hmade
      · cases hmade
        exact .inr hv
      · exact .inl hmade

theorem preserves_resolveTagged (hentries : AreQuiet b.hostPaths entries) {t : Tagged}
    (ht : t.IsQuiet b.hostPaths) :
    Preserves (b.Reading entries) (resolveTagged b.sessions.size t) := by
  cases t with
  | simple j => exact preserves_simpleValue j
  | bigint digits =>
    unfold resolveTagged
    dsimp only
    split
    · exact Preserves.pure _
    · exact upholds_refuse _ _
  | ownSymbol reference description => exact preserves_resumedSymbol reference description
  | sharedSymbol key => exact preserves_sharedSymbol key
  | hostObject path =>
    obtain ⟨id, hpath⟩ := ht path rfl
    exact QuietMachine.path id path hpath
  | entry reference => exact (upholds_resolveEntry hentries reference).preserves
  | _ => exact Preserves.pure _

/-! ## Linking -/

omit [Machine] [QuietMachine b entries] in
theorem preserves_settle (hid : b.store.size ≤ id) (state : PromiseState) :
    Preserves (b.Reading entries) (linkPayload.settle id state) := by
  unfold linkPayload.settle
  refine (preserves_kindOf id).bind fun kind => ?_
  split
  · exact preserves_setKind hid _
  · exact Preserves.pure _

theorem preserves_linkPayload (hid : b.store.size ≤ id) {e : Entry} (he : e.IsQuiet b.hostPaths)
    {type : ObjectType} (htype : type.name = e.objectType) :
    Preserves (b.Reading entries) (linkPayload b.sessions.size id type e.payload) := by
  unfold linkPayload
  split
  case h_5 => exact Preserves.pure _
  all_goals
    refine (upholds_readPayload _ _).bind fun p hp => ?_
    have hquiet : p.IsQuiet b.hostPaths := he.payload _ p htype hp
    cases p with
    | source | member | classPrototype => exact absurd hquiet.kind nofun
    | map entries' =>
      refine (preserves_forIn (fun q hq _ => ?_) _).bind fun _ => Preserves.pure _
      have hmem : ∀ t ∈ [q.1, q.2], t.IsQuiet b.hostPaths := fun t ht =>
        hquiet.values t (List.mem_flatMap.mpr ⟨q, hq, ht⟩)
      refine (preserves_resolve (hmem _ (by simp))).bind fun key => ?_
      refine (preserves_resolve (hmem _ (by simp))).bind fun value => ?_
      refine (preserves_kindOf id).bind fun kind => ?_
      cases kind with
      | map => exact (preserves_setKind hid _).bind fun _ => Preserves.pure _
      | _ => exact Preserves.pure _
    | set elements =>
      refine (preserves_forIn (fun t ht _ => ?_) _).bind fun _ => Preserves.pure _
      refine (preserves_resolve (hquiet.values t ht)).bind fun key => ?_
      refine (preserves_kindOf id).bind fun kind => ?_
      cases kind with
      | set => exact (preserves_setKind hid _).bind fun _ => Preserves.pure _
      | _ => exact Preserves.pure _
    | fulfilled t | rejected t =>
      exact (preserves_resolve (hquiet.values t (by simp [Payload.values]))).bind fun _ =>
        preserves_settle hid _
    | _ => exact Preserves.pure _

theorem preserves_resolveHalf {t : Tagged} (ht : t.IsQuiet b.hostPaths) (half : String) :
    Preserves (b.Reading entries) (resolveHalf b.sessions.size t half) := by
  have hbad : ∀ v, Preserves (b.Reading entries) (resolveHalf.bad half v) := fun v =>
    (preserves_display v).bind fun _ => upholds_refuse _ _
  unfold resolveHalf
  refine (preserves_resolve ht).bind fun v => ?_
  cases v with
  | undefined => exact Preserves.pure _
  | object f =>
    refine upholds_get.bind fun r _ => ?_
    split
    · exact Preserves.pure _
    · exact hbad _
  | _ => exact hbad _

/-- A half that is there is resolved; otherwise the old one stays. -/
theorem preserves_presentHalf {t? : Option Tagged} (ht : ∀ t ∈ t?, t.IsQuiet b.hostPaths)
    (half : String) (old : Option ObjectId) {rest : Option ObjectId → Run α}
    (hrest : ∀ f, Preserves (b.Reading entries) (rest f)) :
    Preserves (b.Reading entries) (match t? with
      | some t => resolveHalf b.sessions.size t half >>= rest
      | none => Pure.pure old >>= rest) := by
  cases t? with
  | some t => exact (preserves_resolveHalf (ht t rfl) half).bind hrest
  | none => exact (Preserves.pure old).bind hrest

theorem preserves_resolveSlot {s : Slot} (hs : ∀ t ∈ s.values, t.IsQuiet b.hostPaths)
    (present : Option Descriptor) :
    Preserves (b.Reading entries) (resolveSlot b.sessions.size s present) := by
  unfold resolveSlot
  dsimp only
  split
  · have hget : ∀ t ∈ s.get, t.IsQuiet b.hostPaths := fun t (ht : s.get = some t) =>
      hs t (by simp [Slot.values, ht])
    have hset : ∀ t ∈ s.set, t.IsQuiet b.hostPaths := fun t (ht : s.set = some t) =>
      hs t (by simp [Slot.values, ht])
    refine preserves_presentHalf hget _ _ fun get => ?_
    exact preserves_presentHalf hset _ _ fun set => Preserves.pure _
  · cases hvalue : s.value with
    | some t =>
      have ht : t.IsQuiet b.hostPaths := hs t (by simp [Slot.values, hvalue])
      exact (preserves_resolve ht).bind fun _ => Preserves.pure _
    | none => exact (Preserves.pure _).bind fun _ => Preserves.pure _

theorem preserves_resolveKey {t : Tagged} (ht : t.IsQuiet b.hostPaths) (reference : String) :
    Preserves (b.Reading entries) (resolveKey b.sessions.size reference t) := by
  unfold resolveKey
  refine (preserves_resolve ht).bind fun v => ?_
  cases v with
  | text | symbol => exact Preserves.pure _
  | _ => exact (preserves_display _).bind fun _ => upholds_refuse _ _

theorem preserves_linkProperty (hid : b.store.size ≤ id) (reference : String) {k : Tagged}
    {s : Slot} (hk : k.IsQuiet b.hostPaths) (hs : ∀ t ∈ s.values, t.IsQuiet b.hostPaths) :
    Preserves (b.Reading entries) (linkProperty b.sessions.size reference id k s) := by
  unfold linkProperty
  refine (preserves_resolveKey hk reference).bind fun key => ?_
  refine (preserves_objectAt id).bind fun o => (preserves_resolveSlot hs _).bind fun d => ?_
  split
  · exact Preserves.pure _
  · refine (preserves_define hid key d).bind fun done => ?_
    split
    · exact (preserves_displayKey key).bind fun _ => upholds_refuse _ _
    · exact Preserves.pure _

theorem preserves_linkPrototype (hid : b.store.size ≤ id) (reference : String) {t : Tagged}
    (ht : t.IsQuiet b.hostPaths) :
    Preserves (b.Reading entries) (linkPrototype b.sessions.size reference id t) := by
  have hlink : ∀ prototype,
      Preserves (b.Reading entries) (linkPrototype.link reference id prototype) := by
    intro prototype
    refine (preserves_setPrototype hid prototype).bind fun done => ?_
    split
    · exact upholds_refuse _ _
    · exact Preserves.pure _
  unfold linkPrototype
  refine (preserves_resolve ht).bind fun v => ?_
  cases v with
  | object p => exact hlink _
  | null => exact hlink _
  | undefined => exact Preserves.pure _
  | _ => exact (preserves_display _).bind fun _ => upholds_refuse _ _

/-- **Only new objects are linked.** -/
theorem preserves_linkEntry (hentries : AreQuiet b.hostPaths entries) (reference : String)
    {e : Entry} (he : e.IsQuiet b.hostPaths) :
    Preserves (b.Reading entries) (linkEntry b.sessions.size reference e) := by
  have hvalues : ∀ t ∈ e.values, t.IsQuiet b.hostPaths := fun t ht =>
    he.mentions t (List.mem_append_left _ ht)
  unfold linkEntry
  refine (upholds_resolveEntry hentries reference).bind fun v hv => ?_
  cases v with
  | object id =>
    have hid := hv id rfl
    dsimp -zeta only
    extract_lets rest
    have hrest : ∀ u, Preserves (b.Reading entries) (rest u) := by
      intro u
      have hprototype : e.prototype.IsQuiet b.hostPaths := hvalues _ List.mem_cons_self
      refine (preserves_linkPrototype hid reference hprototype).bind fun _ => ?_
      refine (preserves_forIn (fun q hq _ => ?_) _).bind fun _ => ?_
      · have hmem : ∀ t ∈ q.1 :: q.2.values, t.IsQuiet b.hostPaths := fun t ht =>
          hvalues t (List.mem_cons_of_mem _ (List.mem_flatMap.mpr ⟨q, hq, ht⟩))
        have hkey : q.1.IsQuiet b.hostPaths := hmem _ List.mem_cons_self
        have hslot : ∀ t ∈ q.2.values, t.IsQuiet b.hostPaths := fun t ht =>
          hmem t (List.mem_cons_of_mem _ ht)
        exact (preserves_linkProperty hid reference hkey hslot).bind fun _ => Preserves.pure _
      · split
        · exact preserves_changeObject hid _
        · exact Preserves.pure _
    clear_value rest
    split
    · refine (upholds_typeNamed _).bind fun type? htype => ?_
      cases type? with
      | some type => exact (preserves_linkPayload hid he (htype type rfl)).bind hrest
      | none => exact hrest ()
    · exact hrest ()
  | _ => exact Preserves.pure _

/-! ## Sessions -/

omit [Machine] [QuietMachine b entries] in
theorem upholds_dependencies {e : Entry} (he : e.IsQuiet b.hostPaths) :
    Upholds (b.Reading entries) (dependencies e) fun l => ∀ t ∈ l, t.IsQuiet b.hostPaths := by
  have hvalues : ∀ t ∈ e.values, t.IsQuiet b.hostPaths := fun t ht =>
    he.mentions t (List.mem_append_left _ ht)
  unfold dependencies
  split
  · exact Upholds.pure hvalues
  · refine (upholds_typeNamed _).bind fun type? htype => ?_
    cases type? with
    | none => exact Upholds.pure hvalues
    | some type =>
      refine Upholds.pure fun t ht => (List.mem_append.mp ht).elim (hvalues t) fun ht => ?_
      cases type with
      | function =>
        have hfunction : ∀ p, Payload.function? e.payload = some p → p.IsQuiet b.hostPaths :=
          fun p hp => he.payload .function p (htype _ rfl) hp
        simp only [ObjectType.dependencies] at ht
        split at ht
        · next hp => exact absurd (hfunction _ hp).kind nofun
        · next hp => exact absurd (hfunction _ hp).kind nofun
        · cases ht
      | _ => exact he.mentions t (List.mem_append_right _ ht)

theorem preserves_discover (hentries : AreQuiet b.hostPaths entries) :
    Preserves (b.Reading entries) (discover b.sessions.size entries) := by
  refine preserves_iterate (fun cursor => ?_) _ _
  refine upholds_sessionAt.bind fun S _ => ?_
  split
  · exact Preserves.pure _
  · next reference _ =>
    cases he : entries.find? reference with
    | none => exact (Preserves.pure ()).bind fun _ => Preserves.pure _
    | some e =>
      refine (upholds_dependencies (hentries reference e he)).bind fun l hl => ?_
      refine (preserves_forIn (fun t ht _ => ?_) _).bind fun _ => Preserves.pure _
      exact (preserves_resolve (hl t ht)).bind fun _ => Preserves.pure _

end Machine

/-- A session with a quiet envelope. -/
theorem preserves_runSession [Machine] {e : Envelope} [QuietMachine b e.entries]
    (he : e.IsQuiet b.hostPaths) :
    Preserves (b.Reading e.entries) (runSession b.sessions.size e) := by
  unfold runSession
  refine (preserves_resolve he.root).bind fun root => ?_
  refine (preserves_discover he.entries).bind fun _ => upholds_sessionAt.bind fun S _ => ?_
  refine Preserves.bind ?_ fun _ => Preserves.pure _
  refine preserves_forIn (fun reference _ _ => ?_) _
  cases hentry : e.entries.find? reference with
  | none => exact Preserves.pure _
  | some entry =>
    have hquiet := he.entries reference entry hentry
    exact (preserves_linkEntry he.entries reference hquiet).bind fun _ => Preserves.pure _

/-- **Quiet values are read without disturbing anything**, however deep the reading goes. -/
theorem quietMachine_engine (hpaths : b.PathsAreQuiet) (hentries : AreQuiet b.hostPaths entries)
    (depth : ℕ) : @QuietMachine b entries (engine depth) := by
  have hpath : ∀ depth id path, b.hostPaths.pathOf? id = some path →
      Preserves (b.Reading entries) (@resolvePath (engine depth) path) := by
    intro depth id path hp r out r' hr hrun hfuel
    obtain ⟨hgrows, hquiet, hsessions⟩ := hpaths id path hp depth r hr.grows out r' hrun hfuel
    exact ⟨hr.follows hgrows hquiet hsessions, fun _ _ => trivial⟩
  induction depth with
  | zero => exact @QuietMachine.mk b entries (engine 0) (fun _ _ => upholds_throw _ _) (hpath 0)
  | succ depth ih =>
    let _ : Machine := engine depth
    let _ : QuietMachine b entries := ih
    exact @QuietMachine.mk b entries (engine (depth + 1))
      (fun _ ht => preserves_resolveTagged hentries ht) (hpath (depth + 1))

/-! ## Reading an envelope -/

/-- What the session leaves when it is over. -/
theorem Realm.Reading.closed {r : Realm} (h : b.Reading entries r) (sessions : Array Session)
    (scopes : Array ScopeTable) (events : EventLog) :
    b.Undisturbed { r with sessions, scopes, events } :=
  { h.undisturbed with }

theorem undisturbed_of_withSession {r r' : Realm} {action : SessionId → Run α}
    {out : Except Fault (Except EngineError α × ℕ)}
    (haction : Preserves (r.Reading entries) (action r.sessions.size))
    (hrun : r.run (withSession entries action) = (out, r')) (hfuel : out ≠ .error .outOfFuel) :
    r.Undisturbed r' := by
  have hget : ∀ r : Realm, r.run get = (.ok r, r) := fun _ => rfl
  have hmodify : ∀ (f : Realm → Realm) (r : Realm), r.run (modify f) = (.ok (), f r) :=
    fun _ _ => rfl
  have hattempt : Upholds (r.Reading entries) (attempt (action r.sessions.size)) _ :=
    haction.attempt
  unfold withSession at hrun
  simp only [run_bind, hget, hmodify] at hrun
  split at hrun
  · next outcome r₁ h₁ =>
    have hreads := (hattempt _ _ _ (.begin r entries) h₁ nofun).1
    cases hrun
    exact hreads.closed _ _ _
  · next fault r₁ h₁ =>
    cases hrun
    have hne : (Except.error fault : Except Fault (Except EngineError α)) ≠ .error .outOfFuel :=
      fun he => hfuel (by cases he; rfl)
    exact (hattempt _ _ _ (.begin r entries) h₁ hne).1.closed _ _ _

/-- **Reading a quiet envelope disturbs nothing**, however the reading ends. -/
theorem undisturbed_of_deserialize {r r' : Realm} {e : Envelope} {depth : ℕ}
    {out : Except Fault Value} (hpaths : r.PathsAreQuiet) (he : e.IsQuiet r.hostPaths)
    (hrun : r.run (@deserialize (engine depth) e) = (out, r')) (hfuel : out ≠ .error .outOfFuel) :
    r.Undisturbed r' := by
  let _ : Machine := engine depth
  have _ : QuietMachine r e.entries := quietMachine_engine hpaths he.entries depth
  have hsession : Preserves (r.Reading e.entries) (runSession r.sessions.size e) :=
    preserves_runSession he
  unfold deserialize at hrun
  rw [run_bind] at hrun
  split at hrun
  · next outcome r₁ h₁ =>
    have hclosed : r.Undisturbed r₁ := undisturbed_of_withSession hsession h₁ nofun
    have hstands : ∀ out r', r₁.run (ofExcept outcome.1) = (out, r') → out ≠ .error .outOfFuel →
        r.Undisturbed r' := fun out r' hrun hfuel =>
      ((upholds_ofExcept (Q := fun _ => True) fun _ _ => trivial) r₁ out r' hclosed hrun hfuel).1
    exact holds_of_noted (fun _ _ h => { h with }) (fun _ => Preserves.pure _) hstands _ _ hrun
      hfuel
  · next fault r₁ h₁ =>
    cases hrun
    exact undisturbed_of_withSession hsession h₁ fun he => hfuel (by cases he; rfl)

end Stasis
