import Mathlib
import Stasis.RoundTrip
import Stasis.Proofs.Behaves.Suspend

/-!
# Resuming behaves

* `behaves_typeNamed`: no name is that of two built-in types.
* `behaves_resolveEntry`, `behaves_resolveTagged`, `behaves_linkEntry`: making and linking objects.
* `behaves_deserialize`: the value of an envelope, whatever the envelope.
* `behaves_ensureSerializable`: a round trip and its comparison.
-/

namespace Stasis

variable {α β : Type} {K : Store → Prop}

@[grind ←]
theorem behaves_refuse (detail : String) : Behaves (refuse detail : Run α) := behaves_raise rfl

@[grind ←]
theorem behaves_sessionAt (id : SessionId) : Behaves (sessionAt id) := by
  unfold sessionAt
  grind -linarith

/-- What is done in a session that is open may count on its envelope. -/
theorem steady_sessionAt_bind {heaps : List (Table String Entry)} {id : SessionId}
    {f : Session → Run α}
    (h : ∀ s heaps, heaps[id]? = some s.entries → Steady heaps (f s)) :
    Steady heaps (sessionAt id >>= f) := by
  unfold sessionAt
  rw [bind_assoc]
  refine steady_get_bind fun r past hr => ?_
  cases hs : r.sessions[id]? with
  | none => exact ⟨_, r, past, (Passes.throw _ _).bind_error f, fun _ => .refl r⟩
  | some s =>
    have hopen : r.heaps[id]? = some s.entries := by simp [Realm.heaps, hs]
    rw [pure_bind]
    obtain ⟨out, r', later, hpass, hframe⟩ := h s r.heaps hopen r past List.prefix_rfl
    exact ⟨out, r', later, hpass.mono hr, hframe⟩

/-- A session may get on with its envelope, and keeps it. -/
theorem behaves_changeSession (id : SessionId) {f : Session → Session}
    (h : ∀ s, (f s).entries = s.entries) : Behaves (changeSession id f) :=
  behaves_modify (fun _ => .session id h) fun _ => rfl

/-- **No name is that of two built-in types.** -/
theorem typesNamed_le_one (name : String) :
    (ObjectType.all.filter fun t => t.name == name).length ≤ 1 := by
  have hnames : (ObjectType.all.map ObjectType.name).Nodup := by decide
  have hcount := List.nodup_iff_count_le_one.mp hnames name
  rwa [List.count, List.countP_map, List.countP_eq_length_filter] at hcount

theorem ends_typeNamed (name : String) : Ends (typeNamed name) fun _ => True := by
  unfold typeNamed
  refine ends_get.bind fun r hr => ?_
  have hone := typesNamed_le_one name
  rw [← show r.objectTypes = _ from hr] at hone
  split
  · exact Ends.pure trivial
  · exact Ends.pure trivial
  · next hnil hsingle =>
    rcases h : r.objectTypes.filter fun t => t.name == name with _ | ⟨t, _ | ⟨t', rest⟩⟩
    · exact absurd h hnil
    · exact absurd h (hsingle t)
    · rw [h] at hone
      exact absurd hone (by simp)

theorem steady_typeNamed (name : String) (heaps : List (Table String Entry)) :
    Steady heaps (typeNamed name) := by
  unfold typeNamed
  refine steady_get.bind fun r => ?_
  split
  · exact Steady.pure _
  · exact Steady.pure _
  · exact steady_throw _

@[grind ←]
theorem behaves_typeNamed (name : String) : Behaves (typeNamed name) :=
  (ends_typeNamed name).behaves (steady_typeNamed name)

@[grind ←]
theorem behaves_readPayload (type : ObjectType) (j : Json) : Behaves (readPayload type j) := by
  unfold readPayload
  grind -linarith

@[grind ←]
theorem behaves_simpleValue (j : Json) : Behaves (simpleValue j) := by
  unfold simpleValue
  grind -linarith

@[grind ←]
theorem behaves_resumedSymbol (reference : String) (description : Option String) :
    Behaves (resumedSymbol reference description) := by
  refine ⟨ends_modifyGet (fun r => by split <;> rfl) fun r => by split <;> rfl,
    fun _ => steady_modifyGet fun r _ => ?_⟩
  split
  · exact .inl rfl
  · next h => exact .inr (.resumedSymbol description h)

@[grind ←]
theorem behaves_sharedSymbol (key : String) : Behaves (sharedSymbol key) :=
  behaves_modifyGet (fun _ => .sharedSymbol key) fun _ => rfl

@[grind ←]
theorem behaves_newPromise (state : PromiseState) : Behaves (newPromise state) := by
  unfold newPromise
  grind -linarith

/-- A new buffer that fits. -/
theorem behavesSince_newBuffer {b : Buffer} (h : ∀ s : Store, s.Since K → b.Fits) :
    BehavesSince K (newBuffer b) :=
  behaves_get.since.bind fun _ => behavesSince_allocate fun s hs => .new _ (h s hs) rfl

@[grind ←]
theorem behaves_newBuffer {b : Buffer} (h : b.Fits) : Behaves (newBuffer b) :=
  (behavesSince_newBuffer fun _ _ => h).behaves

@[grind ←]
theorem behaves_registerFunction (id : ObjectId) (record : Registration) :
    Behaves (registerFunction id record) :=
  behaves_modify (fun _ => .function id record) fun _ => rfl

@[grind ←]
theorem behaves_registerMember (class_ : ObjectId) (name : String) (static : Bool)
    (d : Descriptor) : Behaves (registerMember class_ name static d) := by
  unfold registerMember
  grind -linarith

@[grind ←]
theorem behaves_registerMembersOf (holder class_ : ObjectId) (except : String) (static : Bool) :
    Behaves (registerMembersOf holder class_ except static) := by
  unfold registerMembersOf
  grind -linarith

@[grind ←]
theorem behaves_registerClassMembers (class_ : ObjectId) :
    Behaves (registerClassMembers class_) := by
  unfold registerClassMembers
  refine (behaves_registerMembersOf _ _ _ _).bind fun _ => (behaves_objectAt _).bind fun o => ?_
  split
  · refine Behaves.bind (behaves_modify (fun _ => .classPrototype _ _) fun _ => rfl) fun _ => ?_
    exact behaves_registerMembersOf _ _ _ _
  · exact Behaves.pure _

section Machine

variable [Machine] [SafeMachine]

/-! ## Bare objects -/

@[grind ←]
theorem behaves_resolvePath (path : String) : Behaves (resolvePath path) := by
  unfold resolvePath
  split
  · exact behaves_refuse _
  · grind -linarith

@[grind ←]
theorem behaves_evalSource (text : String) (table : TableId) :
    Behaves (evalSource text table) := by
  unfold evalSource
  split
  · exact behaves_refuse _
  · grind -linarith

@[grind ←]
theorem behaves_remakeFunction (text : String) (table : TableId) :
    Behaves (remakeFunction text table) := by
  unfold remakeFunction
  refine (behaves_evalSource text table).bind fun v => ?_
  split
  · refine behaves_get.bind fun r => Behaves.guard (behaves_refuse _) fun _ => ?_
    grind -linarith
  · exact behaves_refuse _

@[grind ←]
theorem behaves_remadeClass (class_ : ObjectId) : Behaves (remadeClass class_) := by
  unfold remadeClass
  grind -linarith

omit [Machine] [SafeMachine] in
@[grind ←]
theorem behaves_noFunction (expression : String) : Behaves (resumeMember.noFunction expression) :=
  behaves_refuse _

@[grind ←]
theorem behaves_resumeMember (session : SessionId) (owner : Tagged) (expression : String)
    (detached : Bool) : Behaves (resumeMember session owner expression detached) := by
  unfold resumeMember
  refine (behaves_resolve session owner).bind fun v => ?_
  cases v with
  | object class_ =>
    dsimp -zeta only
    extract_lets found
    have hfound : ∀ class_, Behaves (found class_) := fun class_ => by
      unfold found
      grind -linarith
    split
    · exact (behaves_remadeClass class_).bind hfound
    · exact (Behaves.pure class_).bind hfound
  | _ => exact behaves_refuse _

omit [Machine] [SafeMachine] in
@[grind ←]
theorem behaves_resumeBuffer (detached resizable : Bool) (length maxLength : ℕ) (content : String) :
    Behaves (resumeBuffer detached resizable length maxLength content) := by
  unfold resumeBuffer
  split
  · exact behaves_refuse _
  · next bytes hbytes =>
    refine (BehavesSince.unless (behaves_refuse _) (fun _ _ => nofun) fun _ => ?_).behaves
    refine BehavesSince.unless (behaves_refuse _) (fun _ _ => nofun) fun hlimit => ?_
    refine ((behaves_newBuffer ?_).bind fun id => Behaves.pure _).since
    intro max hmax
    cases resizable with
    | true =>
      cases hmax
      have hle : bytes.length ≤ maxLength := by simpa using hlimit
      exact List.size_toArray.trans_le hle
    | false => cases hmax

@[grind ←]
theorem behaves_resumeBytes (session : SessionId) (viewed : Tagged) (offset length : ℕ) :
    Behaves (resumeBytes session viewed offset length) := by
  unfold resumeBytes
  refine (behaves_resolve session viewed).bind fun v => ?_
  cases v with
  | object buffer =>
    refine (behaves_kindOf buffer).bind fun kind => ?_
    cases kind with
    | buffer b => exact Behaves.guard (behaves_refuse _) fun _ => by grind -linarith
    | _ => exact behaves_refuse _
  | _ => exact behaves_refuse _

/-- Where no function is made, nothing waits for the session. -/
theorem behaves_bareObject (session : SessionId) {p : Payload}
    (h : ¬ ∃ captures text, p = .source captures text) : Behaves (bareObject session p) := by
  unfold bareObject
  cases p with
  | source captures text => exact absurd ⟨captures, text, rfl⟩ h
  | _ => grind -linarith

theorem ends_bareObject (session : SessionId) (p : Payload) :
    Ends (bareObject session p) fun _ => True := by
  by_cases h : ∃ captures text, p = .source captures text
  · obtain ⟨captures, text, rfl⟩ := h
    have hscope : ∀ t, Ends (newScope t) fun _ => True := fun _ =>
      ends_modifyGet (fun _ => rfl) fun _ => rfl
    unfold bareObject
    exact (hscope _).bind fun table _ => (behaves_remakeFunction text table).bind_ends fun id =>
      Ends.pure trivial
  · exact (behaves_bareObject session h).ends

/-- The table of a function waits for the session in which the function is made. -/
theorem steady_bareObject {heaps : List (Table String Entry)} {entries : Table String Entry}
    {session : SessionId} (hopen : heaps[session]? = some entries) {reference : String} {e : Entry}
    (he : entries.find? reference = some e) {type : ObjectType} {p : Payload}
    (hp : Payload.ofJson? type e.payload = some p) : Steady heaps (bareObject session p) := by
  by_cases h : ∃ captures text, p = .source captures text
  · obtain ⟨captures, text, rfl⟩ := h
    unfold bareObject
    refine Steady.bind (steady_modifyGet fun r hr => .inr (.scope ?_)) fun table =>
      ((behaves_remakeFunction text table).steady heaps).bind fun id => Steady.pure _
    rintro i ⟨⟩
    refine ⟨entries, getElem?_of_prefix hr hopen, reference, e, type, captures, text, he, hp, ?_⟩
    intro name value hpending
    obtain ⟨q, hq, heq⟩ := List.mem_map.mp (Table.mem_of_find?_ofList hpending)
    cases heq
    exact hq
  · exact (behaves_bareObject session h).steady heaps

theorem ends_bareEntry (session : SessionId) (e : Entry) :
    Ends (bareEntry session e) fun _ => True := by
  unfold bareEntry
  split
  · exact Behaves.ends (by grind -linarith)
  · refine (behaves_typeNamed _).bind_ends fun type => ?_
    split
    case h_5 =>
      refine (behaves_readPayload _ _).bind_ends fun p => (ends_bareObject session p).bind fun v _ => ?_
      exact Behaves.ends (by grind -linarith)
    all_goals exact Behaves.ends (by grind -linarith)

theorem steady_bareEntry {heaps : List (Table String Entry)} {entries : Table String Entry}
    {session : SessionId} (hopen : heaps[session]? = some entries) {reference : String} {e : Entry}
    (he : entries.find? reference = some e) : Steady heaps (bareEntry session e) := by
  unfold bareEntry
  split
  · exact Behaves.steady (by grind -linarith) heaps
  · refine ((behaves_typeNamed _).steady heaps).bind fun type => ?_
    split
    case h_5 t _ _ _ =>
      unfold readPayload
      cases hp : Payload.ofJson? t e.payload with
      | none => exact fun r past _ =>
          ⟨_, r, past, (Passes.throw _ _).bind_error _, fun _ => .refl r⟩
      | some p =>
        rw [pure_bind]
        exact (steady_bareObject hopen he hp).bind fun v => Behaves.steady (by grind -linarith) heaps
    all_goals exact Behaves.steady (by grind -linarith) heaps

theorem ends_resolveEntry (session : SessionId) (reference : String) :
    Ends (resolveEntry session reference) fun _ => True := by
  unfold resolveEntry
  refine (behaves_sessionAt session).bind_ends fun s => ?_
  split
  · exact Ends.pure trivial
  · refine Ends.guard (behaves_refuse _) fun _ => ?_
    split
    · exact ends_throw (.error (.missingEntry reference)) rfl _
    · next e _ =>
      refine Behaves.bind_ends (behaves_changeSession session ?_) fun _ => ?_
      · exact fun _ => rfl
      -- what is thrown again is what the bare object has failed for
      refine (Ends.attempt (ends_bareEntry session e)).bind fun outcome houtcome => ?_
      refine Behaves.bind_ends (behaves_changeSession session ?_) fun _ => ?_
      · exact fun _ => rfl
      refine houtcome.ends.bind fun v _ => ?_
      refine Behaves.bind_ends (behaves_changeSession session ?_) fun _ => Ends.pure trivial
      exact fun _ => rfl

/-- **Whatever is made for a reference of an open session is made of its envelope.** -/
theorem steady_resolveEntry (session : SessionId) (reference : String)
    (heaps : List (Table String Entry)) : Steady heaps (resolveEntry session reference) := by
  unfold resolveEntry
  refine steady_sessionAt_bind fun s heaps hopen => ?_
  split
  · exact Steady.pure _
  · refine Steady.guard ((behaves_refuse _).steady heaps) fun _ => ?_
    split
    · exact steady_throw _
    · next e he =>
      have hchange : ∀ {f : Session → Session}, (∀ s, (f s).entries = s.entries) →
          Steady heaps (changeSession session f) :=
        fun h => (behaves_changeSession session h).steady heaps
      refine Steady.bind (hchange ?_) fun _ => (steady_bareEntry hopen he).attempt.bind
        fun outcome => Steady.bind (hchange ?_) fun _ => (steady_ofExcept outcome).bind fun v =>
          Steady.bind (hchange ?_) fun _ => Steady.pure v
      all_goals exact fun _ => rfl

@[grind ←]
theorem behaves_resolveEntry (session : SessionId) (reference : String) :
    Behaves (resolveEntry session reference) :=
  (ends_resolveEntry session reference).behaves (steady_resolveEntry session reference)

@[grind ←]
theorem behaves_resolveTagged (session : SessionId) (t : Tagged) :
    Behaves (resolveTagged session t) := by
  unfold resolveTagged
  grind -linarith

/-! ## Linking -/

omit [Machine] [SafeMachine] in
@[grind ←]
theorem behaves_settle (id : ObjectId) (state : PromiseState) :
    Behaves (linkPayload.settle id state) := by
  unfold linkPayload.settle
  refine (behaves_kindOf id).bind_leaving (leaves_kindOf id) fun kind => ?_
  split
  · exact behavesSince_setPromise state
  · exact (Behaves.pure _).since

@[grind ←]
theorem behaves_linkPayload (session : SessionId) (id : ObjectId) (type : ObjectType) (j : Json) :
    Behaves (linkPayload session id type j) := by
  unfold linkPayload
  split
  case h_5 => exact Behaves.pure _
  all_goals
    refine (behaves_readPayload _ j).bind fun payload => ?_
    cases payload with
    | map entries =>
      refine Behaves.bind (behaves_forIn (fun q _ => ?_) _ _) fun _ => Behaves.pure _
      refine (behaves_resolve _ _).bind fun key => (behaves_resolve _ _).bind fun value => ?_
      refine (behaves_kindOf id).bind_leaving (leaves_kindOf id) fun kind => ?_
      split
      · exact (behavesSince_setMap fun h => h.insert key value).bind fun _ => (Behaves.pure _).since
      · exact (Behaves.pure _).since
    | set elements =>
      refine Behaves.bind (behaves_forIn (fun t _ => ?_) _ _) fun _ => Behaves.pure _
      refine (behaves_resolve _ _).bind fun key => ?_
      refine (behaves_kindOf id).bind_leaving (leaves_kindOf id) fun kind => ?_
      split
      · exact (behavesSince_setSet fun h => h.insert key ()).bind fun _ => (Behaves.pure _).since
      · exact (Behaves.pure _).since
    | source captures text =>
      refine behaves_get.bind fun r => ?_
      dsimp only
      split
      · next table _ _ =>
        refine (behaves_mapM (fun q => ?_) captures).bind fun values => ?_
        · grind -linarith
        · exact Behaves.bind (behaves_forIn (by grind -linarith) _ _) fun _ => behaves_leave table
      · exact Behaves.pure _
    | _ => grind -linarith

omit [Machine] [SafeMachine] in
@[grind ←]
theorem behaves_resolveHalf_bad (half : String) (v : Value) : Behaves (resolveHalf.bad half v) := by
  unfold resolveHalf.bad
  grind -linarith

@[grind ←]
theorem behaves_resolveHalf (session : SessionId) (t : Tagged) (half : String) :
    Behaves (resolveHalf session t half) := by
  unfold resolveHalf
  grind -linarith

theorem leaves_resolveHalf (session : SessionId) (t : Tagged) (half : String) :
    Leaves K (resolveHalf session t half) fun f s => s.IsHalf f := by
  have hbad : ∀ {K : Store → Prop} v, Leaves K (resolveHalf.bad half v) fun f s => s.IsHalf f :=
    fun v => (behaves_display v).bind_leaves fun _ => leaves_of_not_yields fun _ _ _ => nofun
  unfold resolveHalf
  refine (behaves_resolve session t).bind_leaves fun v => ?_
  split
  · exact .pure fun _ _ => Store.isHalf_none
  · next f =>
    refine Leaves.bind behaves_get.since leaves_get fun r => ?_
    split
    · next hf =>
      exact .pure fun s hs => (hs.imp fun s₀ _ h => Store.isHalf_some.mpr (h.1 ▸ hf)).isHalf
    · exact hbad _
  · exact hbad _

@[grind ←]
theorem behaves_resolveSlot (session : SessionId) (s : Slot) (present : Option Descriptor) :
    Behaves (resolveSlot session s present) := by
  unfold resolveSlot
  dsimp only
  split
  · cases s.get <;> cases s.set <;> simp only [pure_bind] <;> grind -linarith
  · cases s.value <;> simp only [pure_bind] <;> grind -linarith

/-- The halves of an accessor are functions, also where one that is there is kept. -/
theorem leaves_resolveSlot (session : SessionId) (s : Slot) {present : Option Descriptor}
    (hpresent : ∀ s : Store, s.Since K → ∀ d ∈ present.toList, d.Sound s) :
    Leaves K (resolveSlot session s present) fun d s => d.Sound s := by
  have hbehaves := behaves_resolveHalf session
  have hleaves := leaves_resolveHalf (K := K) session
  unfold resolveSlot
  extract_lets enumerable configurable presentAccessor
  split
  · split
    next g h hold =>
      obtain ⟨hg, hh⟩ : Leaves K (Pure.pure g) (fun f s => s.IsHalf f) ∧
          Leaves K (Pure.pure h) fun f s => s.IsHalf f := by
        split at hold <;> cases hold
        · exact leaves_halves fun s hs => hpresent s hs _ List.mem_cons_self
        · exact ⟨leaves_noHalf, leaves_noHalf⟩
      cases s.get with
      | none =>
        cases s.set with
        | none => exact leaves_accessor (.pure g) (.pure h) hg hh
        | some u => exact leaves_accessor (.pure g) (hbehaves u _) hg (hleaves u _)
      | some t =>
        cases s.set with
        | none => exact leaves_accessor (hbehaves t _) (.pure h) (hleaves t _) hh
        | some u => exact leaves_accessor (hbehaves t _) (hbehaves u _) (hleaves t _) (hleaves u _)
  · cases s.value with
    | none => exact (Behaves.pure _).bind_leaves fun v => .pure fun _ _ => trivial
    | some t => exact (behaves_resolve session t).bind_leaves fun v => .pure fun _ _ => trivial

@[grind ←]
theorem behaves_resolveKey (session : SessionId) (reference : String) (t : Tagged) :
    Behaves (resolveKey session reference t) := by
  unfold resolveKey
  grind -linarith

@[grind ←]
theorem behaves_linkProperty (session : SessionId) (reference : String) (id : ObjectId) (k : Tagged)
    (s : Slot) : Behaves (linkProperty session reference id k s) := by
  unfold linkProperty
  refine (behaves_resolveKey session reference k).bind fun key => ?_
  refine (behaves_objectAt id).bind_leaving (leaves_objectAt id) fun o => ?_
  refine (behaves_resolveSlot session s _).since.bind_leaving
    (leaves_resolveSlot session s fun _ hu => hu.own?) fun d => ?_
  split
  · exact (Behaves.pure _).since
  · refine (behavesSince_define fun u hu => (hu.imp fun _ _ h => h.1).descriptor).bind fun done => ?_
    refine Behaves.since ?_
    grind -linarith

omit [Machine] [SafeMachine] in
@[grind ←]
theorem behaves_link (reference : String) (id : ObjectId) (prototype : Option ObjectId) :
    Behaves (linkPrototype.link reference id prototype) := by
  unfold linkPrototype.link
  refine (behaves_changeStore fun _ _ _ hs h => Store.evolves_of_setPrototype hs h).bind fun done => ?_
  grind -linarith

@[grind ←]
theorem behaves_linkPrototype (session : SessionId) (reference : String) (id : ObjectId)
    (t : Tagged) : Behaves (linkPrototype session reference id t) := by
  unfold linkPrototype
  grind -linarith

@[grind ←]
theorem behaves_linkEntry (session : SessionId) (reference : String) (e : Entry) :
    Behaves (linkEntry session reference e) := by
  unfold linkEntry
  refine (behaves_resolveEntry session reference).bind fun v => ?_
  split
  · next id =>
    extract_lets rest
    have hrest : ∀ u, Behaves (rest u) := by
      intro u
      refine (behaves_linkPrototype _ _ _ _).bind fun _ => Behaves.bind ?_ fun _ => ?_
      · grind -linarith
      · split
        · exact behaves_close id
        · exact Behaves.pure _
    clear_value rest
    grind -linarith
  · exact Behaves.pure _

/-! ## Sessions -/

omit [Machine] [SafeMachine] in
@[grind ←]
theorem behaves_dependencies (e : Entry) : Behaves (dependencies e) := by
  unfold dependencies
  grind -linarith

@[grind ←]
theorem behaves_discover (session : SessionId) (entries : Table String Entry) :
    Behaves (discover session entries) := by
  unfold discover
  refine behaves_repeatFrom _ fun cursor => (behaves_sessionAt session).bind fun s => ?_
  split
  · exact Behaves.pure _
  · grind -linarith

@[grind ←]
theorem behaves_runSession (session : SessionId) (e : Envelope) :
    Behaves (runSession session e) := by
  unfold runSession
  refine (behaves_resolve session e.root).bind fun root => (behaves_discover _ _).bind fun _ => ?_
  refine (behaves_sessionAt session).bind fun s => Behaves.bind ?_ fun _ => Behaves.pure _
  grind -linarith

omit [Machine] [SafeMachine] in
theorem ends_withSession {entries : Table String Entry} {action : SessionId → Run α}
    (h : ∀ session, Behaves (action session)) :
    Ends (withSession entries action) fun out => CaughtAs (fun _ => True) out.1 := by
  unfold withSession
  refine behaves_get.bind_ends fun r => Ends.bind (ends_modify ?_ ?_) fun _ _ => ?_
  · exact fun _ => rfl
  · exact fun _ => rfl
  refine (Ends.attempt (h _).ends).bind fun outcome houtcome => behaves_get.bind_ends fun r' => ?_
  refine Ends.bind (ends_modify ?_ ?_) fun _ _ => Ends.pure houtcome
  · exact fun _ => rfl
  · exact fun _ => rfl

omit [Machine] [SafeMachine] in
/-- **A session is closed when its envelope has been read.** -/
theorem steady_withSession {heaps : List (Table String Entry)} {entries : Table String Entry}
    {action : SessionId → Run α} (h : ∀ session, Behaves (action session)) :
    Steady heaps (withSession entries action) := by
  unfold withSession
  refine steady_get_bind fun r past hr => ?_
  have hopened : heaps <+: { r with sessions := r.sessions.push { entries } }.heaps := by
    refine hr.trans ?_
    simp [Realm.heaps]
  refine ((h r.sessions.size).steady heaps).between _ (.opened entries) hopened past
    fun outcome r' later hframe => ?_
  have hsize : r'.sessions.size = r.sessions.size + 1 := by
    rw [hframe.size_sessions]
    exact Array.size_push ..
  -- what is left of the sessions are those that were open before
  have hback : r.heaps = r'.heaps.take r.sessions.size := by
    rw [hframe.heaps, ← r.length_heaps]
    simp [Realm.heaps]
  refine ⟨_, _, _, Passes.get_bind ((Passes.modify later (.closed hsize) ?_).bind (.pure _ _)),
    fun _ => ⟨?_, hframe.depth⟩⟩
  · rw [hback] at hr
    simpa [Realm.heaps, List.map_take] using hr
  · rw [hback]
    simp [Realm.heaps, List.map_take]

/-- **Reading any envelope behaves.** -/
@[grind ←]
theorem behaves_deserialize (e : Envelope) : Behaves (deserialize e) := by
  have hsession : ∀ session, Behaves (runSession session e) := fun session =>
    behaves_runSession session e
  unfold deserialize
  refine ⟨?_, fun heaps => ?_⟩
  · refine (ends_withSession hsession).bind fun out hout => ?_
    exact Ends.noted hout.ends _ _ fun _ => Behaves.pure _
  · refine (steady_withSession hsession).bind fun out => ?_
    exact (steady_ofExcept out.1).noted _ _ fun _ => Steady.pure _

end Machine

/-! ## Round trips -/

/-- The comparison fails for no mistake of the engine. -/
def Compares (x : Check α) : Prop :=
  ∀ met fault, x.run met = .error fault → fault.IsExpected

section Compares

variable {σ : Type} {x : Check α} {f : α → Check β}

@[grind ←]
theorem Compares.pure (a : α) : Compares (Pure.pure a) := fun _ _ => nofun

@[grind ←]
theorem Compares.bind (hx : Compares x) (hf : ∀ a, Compares (f a)) : Compares (x >>= f) := by
  intro met fault h
  rw [StateT.run_bind] at h
  rcases hrun : x.run met with e | out <;> rw [hrun] at h
  · obtain rfl : e = fault := by
      cases h
      rfl
    exact hx met e hrun
  · exact hf out.1 out.2 fault h

theorem compares_throw (fault : Fault) (h : fault.IsExpected) :
    Compares (throw fault : Check α) := by
  rintro _ _ ⟨⟩
  exact h

@[grind ←]
theorem compares_differ (path what : String) : Compares (differ path what : Check α) :=
  compares_throw _ rfl

@[grind ←]
theorem compares_checkThat (same : Bool) (path what : String) :
    Compares (checkThat same path what) := by
  unfold checkThat
  grind -linarith

@[grind ←]
theorem compares_meet (a b : ObjectId) : Compares (meet a b) := by
  have hget : Compares (get : Check MetPairs) := fun _ _ => nofun
  have hmodify : Compares (modify fun met : MetPairs => (a, b) :: met) := fun _ _ => nofun
  unfold meet
  refine hget.bind fun met => ?_
  split
  · exact Compares.pure _
  · exact hmodify.bind fun _ => Compares.pure _

@[grind ←]
theorem compares_checkedObject (r : Realm) (id : ObjectId) : Compares (r.checkedObject id) := by
  unfold Realm.checkedObject
  split
  · exact Compares.pure _
  · exact compares_throw _ rfl

@[grind ←]
theorem compares_checkedText (r : Realm) (v : Value) : Compares (r.checkedText v) := by
  unfold Realm.checkedText
  split
  · exact Compares.pure _
  · exact compares_throw _ trivial

@[grind ←]
theorem compares_forIn {γ : Type} {g : γ → σ → Check (ForInStep σ)} (h : ∀ c s, Compares (g c s))
    (l : List γ) : ∀ s, Compares (forIn l s g) := by
  induction l with
  | nil => exact fun s => Compares.pure _
  | cons c l ih =>
    intro s
    rw [List.forIn_cons]
    refine (h c s).bind fun next => ?_
    cases next with
    | done s => exact Compares.pure s
    | yield s => exact ih s

variable (r : Realm)

@[grind ←]
theorem compares_compareWith {objects : String → ObjectId → ObjectId → Check Unit}
    (h : ∀ path a b, Compares (objects path a b)) (path : String) (v w : Value) :
    Compares (r.compareWith objects path v w) := by
  unfold Realm.compareWith
  grind -linarith

theorem compares_compareKinds {values : String → Value → Value → Check Unit}
    (h : ∀ path v w, Compares (values path v w)) (path : String) (kind kind' : Kind) :
    Compares (Realm.compareKinds values path kind kind') := by
  unfold Realm.compareKinds
  split <;> grind -linarith

theorem compares_compareDescriptors {values : String → Value → Value → Check Unit}
    (h : ∀ path v w, Compares (values path v w)) (path : String) (d d' : Descriptor) :
    Compares (Realm.compareDescriptors values path d d') := by
  unfold Realm.compareDescriptors
  split <;> grind -linarith

theorem compares_compareObjects (steps : ℕ) :
    ∀ path a b, Compares (r.compareObjects steps path a b) := by
  induction steps with
  | zero => exact fun _ _ _ => compares_throw _ trivial
  | succ steps ih =>
    intro path a b
    have hvalues : ∀ path v w, Compares (r.compareWith (r.compareObjects steps) path v w) :=
      fun path v w => compares_compareWith r ih path v w
    unfold Realm.compareObjects
    split
    · exact Compares.pure _
    · refine (compares_meet a b).bind fun new => ?_
      split
      · exact Compares.pure _
      · refine (compares_checkedObject r a).bind fun o => (compares_checkedObject r b).bind fun o' => ?_
        refine (compares_checkThat _ _ _).bind fun _ => (compares_checkThat _ _ _).bind fun _ => ?_
        refine (hvalues _ _ _).bind fun _ => (compares_compareKinds hvalues _ _ _).bind fun _ => ?_
        refine (compares_checkThat _ _ _).bind fun _ => ?_
        refine (compares_forIn (fun q _ => ?_) _ _).bind fun _ => Compares.pure _
        exact (compares_compareDescriptors hvalues _ _ _).bind fun _ => Compares.pure _

end Compares

section Machine

variable [Machine] [SafeMachine]

theorem behaves_checkRoundTrip (v : Value) : Behaves (checkRoundTrip v) := by
  unfold checkRoundTrip
  have hserialize : Behaves (serialize v {}) :=
    (ends_serialize v _ rfl).behaves (steady_serialize v _)
  refine hserialize.bind fun e => (behaves_deserialize e).bind fun copy => ?_
  refine behaves_realm.bind fun r => ?_
  split
  · exact Behaves.pure _
  · next fault h =>
    exact behaves_throw (compares_compareWith r (compares_compareObjects r _) _ _ _ _ _ h)

/-- **A round trip behaves.** -/
@[grind ←]
theorem behaves_ensureSerializable (v : Value) : Behaves (ensureSerializable v) := by
  unfold ensureSerializable
  refine Behaves.noted ((behaves_checkRoundTrip v).bind fun _ => Behaves.pure _) _ _ fun outcome => ?_
  exact behaves_realm.bind fun r => Behaves.pure _

end Machine

end Stasis
