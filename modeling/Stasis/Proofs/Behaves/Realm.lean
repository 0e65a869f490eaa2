import Mathlib
import Stasis.Proofs.Behaves.Basic
import Stasis.Proofs.Closed

/-!
# The actions of a realm behave

* `SafeMachine`: a machine that carries out every request as it should.
* `behaves_define`, …, `behaves_writeScope`: reading and changing objects, conversions, properties
  and variables. None of these fails for a cause of the engine's own.
-/

namespace Stasis

variable {α σ : Type} {K : Store → Prop}

/-- A machine whose requests behave, and that writes values as a walk does. -/
class SafeMachine [machine : Machine] : Prop where
  behaves : ∀ {α : Type} (request : Request α), Behaves (machine.run request)
  explores : ∀ (p : Pass) (v : Value) (path : Option String),
    Ends (machine.run (.suspend p v path)) fun out => p.Explored out.2 [out.1]

/-! ## Objects -/

/-- Where nothing can be known of the store, only the run of the action counts. -/
abbrev Runs (x : Run α) : Prop := BehavesSince (fun _ => False) x

theorem not_since_false {s : Store} : ¬ s.Since fun _ => False := by
  rintro ⟨_, -, h, -⟩
  exact h

theorem runs_modify {f : Realm → Realm} (h : ∀ r : Realm, r.Change (f r)) : Runs (modify f) where
  runs r hr := ⟨(h r).objectTypes_eq.trans hr, trivial⟩
  steady _ := steady_modifyGet fun r _ => .inr (h r)
  evolves _ _ hs := absurd hs not_since_false

/-- A realm is looked at and changed at once. -/
theorem behaves_get_bind {f : Realm → Run α} (hf : ∀ r, Runs (f r))
    (h : ∀ r : Realm, r.HasTypes → r.store.Sound → r.store.Evolves (r.run (f r)).2.store) :
    Behaves (get >>= f) := by
  have hruns : Runs (get >>= f) := behaves_get.since.bind hf
  exact ⟨⟨hruns.runs, h⟩, hruns.steady⟩

theorem behavesSince_allocate {prototype : Option ObjectId} {kind : Kind}
    (h : ∀ s : Store, s.Since K → Object.Sound s { prototype, kind }) :
    BehavesSince K (allocate prototype kind) where
  runs _ hr := ⟨hr, trivial⟩
  steady _ := steady_modifyGet fun _ _ => .inr (.store _)
  evolves _ _ hs := Store.evolves_push hs.sound (h _ hs)

/-- An object of this kind is sound before it has properties, whatever it holds. -/
def Kind.isSimple : Kind → Bool
  | ordinary | function _ | date _ | regexp .. | error | bytes .. | promise _ => true
  | _ => false

attribute [grind =] Kind.isSimple Value.isObject Value.isNullish Descriptor.isData

section Descriptor

variable (v : Value)

@[grind =]
theorem Descriptor.isData_plain : (plain v).isData = true := rfl

@[grind =]
theorem Descriptor.isData_hidden : (hidden v).isData = true := rfl

@[grind =]
theorem Descriptor.isData_readonly : (readonly v).isData = true := rfl

@[grind =]
theorem Descriptor.isData_constant : (constant v).isData = true := rfl

end Descriptor

theorem behaves_allocateKind (prototype : Option ObjectId) {kind : Kind} (hkind : kind.Sound)
    (harray : kind.isArray = false) : Behaves (allocate prototype kind) :=
  (behavesSince_allocate fun _ _ => .new prototype hkind harray).behaves

@[grind ←]
theorem behaves_allocate (prototype : Option ObjectId) {kind : Kind} (h : kind.isSimple = true) :
    Behaves (allocate prototype kind) := by
  refine behaves_allocateKind prototype ?_ ?_ <;> cases kind <;> trivial

@[grind ←]
theorem behaves_allocateMap (prototype : Option ObjectId) : Behaves (allocate prototype (.map {})) :=
  behaves_allocateKind prototype Table.hasKeys_empty rfl

@[grind ←]
theorem behaves_allocateSet (prototype : Option ObjectId) : Behaves (allocate prototype (.set {})) :=
  behaves_allocateKind prototype Table.hasKeys_empty rfl

@[grind ←]
theorem behaves_allocateWrapper (prototype : Option ObjectId) {v : Value} (hobject : v.isObject = false)
    (hnullish : v.isNullish = false) : Behaves (allocate prototype (.wrapper v)) :=
  behaves_allocateKind prototype ⟨hobject, hnullish⟩ rfl

theorem leaves_allocate (prototype : Option ObjectId) (kind : Kind) :
    Leaves K (allocate prototype kind) fun id s => s.HasKind id kind := by
  rintro r _ _ - - ⟨⟩
  exact ⟨_, Store.get_push_size _, rfl⟩

@[grind ←]
theorem behaves_objectAt (id : ObjectId) : Behaves (objectAt id) := behaves_ofStore _

theorem raises_objectAt {r : Realm} {id : ObjectId} {cause : HeapError} (h : r.store.get id = .error cause) :
    Raises (objectAt id) r (.heap cause) r := by
  refine (yields_get r).bind_raises ?_
  simp only [h]
  exact raises_raise _ r

theorem leaves_objectAt (id : ObjectId) : Leaves K (objectAt id) fun o s => s.get id = .ok o := by
  intro r o r' _ _ hy
  cases ho : r.store.get id with
  | ok u =>
    cases (yields_objectAt ho).symm.trans hy
    exact ho
  | error cause => exact absurd (raises_objectAt ho) hy.not_raises

@[grind ←]
theorem behaves_kindOf (id : ObjectId) : Behaves (kindOf id) :=
  (behaves_objectAt id).bind fun _ => Behaves.pure _

/-- What an object holds besides properties, in a realm that stays as it is. -/
theorem Yields.of_kindOf {r r' : Realm} {id : ObjectId} {kind : Kind} (h : Yields (kindOf id) r kind r') :
    r' = r ∧ r.store.HasKind id kind := by
  cases ho : r.store.get id with
  | ok o =>
    cases (yields_kindOf ho).symm.trans h
    exact ⟨rfl, o, ho, rfl⟩
  | error cause => exact absurd ((raises_objectAt ho).bind fun o => Pure.pure o.kind) h.not_raises

theorem leaves_kindOf (id : ObjectId) : Leaves K (kindOf id) fun k s => s.HasKind id k := by
  intro r k r' _ _ hy
  obtain ⟨rfl, hkind⟩ := hy.of_kindOf
  exact hkind

/-- What an object holds is changed. -/
theorem behavesSince_setKind {id : ObjectId} {kind : Kind}
    (h : ∀ s : Store, s.Since K → ∃ k, s.HasKind id k ∧ k.Step kind) :
    BehavesSince K (setKind id kind) := by
  refine behavesSince_changeStore fun s s' _ hs hchange => ?_
  obtain ⟨_, ⟨o, ho, rfl⟩, hstep⟩ := h s hs
  have hmodify : s' = s.set id { o with kind } := by
    simpa [Store.modify, ho, bind, Except.bind, pure, Except.pure, eq_comm] using hchange
  rw [hmodify]
  exact Store.evolves_setKind hs.sound ho hstep

theorem behavesSince_setMap {id : ObjectId} {entries entries' : Table CollectionKey Value}
    (h : entries.HasKeys → entries'.HasKeys) :
    BehavesSince (fun s => s.HasKind id (.map entries)) (setKind id (.map entries')) :=
  behavesSince_setKind fun s hs => by
    obtain ⟨k, hk, hbecomes, hsound⟩ := hs.hasKind
    exact ⟨k, hk, hbecomes.map (h hsound)⟩

theorem behavesSince_setSet {id : ObjectId} {elements elements' : Table CollectionKey Unit}
    (h : elements.HasKeys → elements'.HasKeys) :
    BehavesSince (fun s => s.HasKind id (.set elements)) (setKind id (.set elements')) :=
  behavesSince_setKind fun s hs => by
    obtain ⟨k, hk, hbecomes, hsound⟩ := hs.hasKind
    exact ⟨k, hk, hbecomes.set (h hsound)⟩

theorem behavesSince_setPromise {id : ObjectId} {state : PromiseState} (state' : PromiseState) :
    BehavesSince (fun s => s.HasKind id (.promise state)) (setKind id (.promise state')) :=
  behavesSince_setKind fun s hs => by
    obtain ⟨k, hk, hbecomes, -⟩ := hs.hasKind
    exact ⟨k, hk, hbecomes.promise state'⟩

theorem evolves_setKind {r : Realm} {id : ObjectId} {k kind : Kind} (hs : r.store.Sound)
    (hkind : r.store.HasKind id k) (hstep : k.Step kind) :
    r.store.Evolves (r.run (setKind id kind)).2.store := by
  obtain ⟨o, ho, rfl⟩ := hkind
  rw [show r.run (setKind id kind) = _ from yields_setKind ho]
  exact Store.evolves_setKind hs ho hstep

/-- What an object holds is looked at and changed at once. -/
theorem behavesSince_kindOf_bind {id : ObjectId} {f : Kind → Run α} (hf : ∀ k, Runs (f k))
    (h : ∀ (r : Realm) k, r.store.Since K → r.store.HasKind id k →
      r.store.Evolves (r.run (f k)).2.store) :
    BehavesSince K (kindOf id >>= f) := by
  have hruns : Runs (kindOf id >>= f) := (behaves_kindOf id).since.bind hf
  refine ⟨hruns.runs, hruns.steady, fun r hr hs => ?_⟩
  cases ho : r.store.get id with
  | ok o =>
    rw [(yields_kindOf ho).run_bind]
    exact h r o.kind hs ⟨o, ho, rfl⟩
  | error cause =>
    have hfail : Raises (kindOf id >>= f) r (.heap cause) r :=
      ((raises_objectAt ho).bind fun o => Pure.pure o.kind).bind f
    rw [show r.run _ = _ from hfail]
    exact .refl hs.sound

/-- An object is changed, but not what it holds besides properties. -/
theorem behaves_modifyObject {id : ObjectId} {f : Object → Object} (hkind : ∀ o, (f o).kind = o.kind)
    (hf : ∀ (s : Store) (o : Object), o.Sound s → (f o).Sound s) :
    Behaves (changeStore fun s => do return (← s.modify id f, ())) := by
  refine behaves_changeStore fun s s' _ hs h => ?_
  cases hmodify : s.modify id f with
  | error =>
    rw [hmodify] at h
    cases h
  | ok changed =>
    rw [hmodify] at h
    cases h
    exact Store.evolves_of_modify hs hkind (hf s) hmodify

/-- No more properties can be added. -/
theorem behaves_close (id : ObjectId) :
    Behaves (changeStore fun s => do return (← s.modify id fun o => { o with extensible := false }, ())) :=
  behaves_modifyObject (fun _ => rfl) fun _ _ h => ⟨h.kind, h.properties, h.array⟩

theorem behavesSince_define {id : ObjectId} {key : Key} {d : Descriptor}
    (hd : ∀ s : Store, s.Since K → d.Sound s) : BehavesSince K (define id key d) :=
  behavesSince_changeStore fun s _ _ hs hc => Store.evolves_of_define hs.sound (hd s hs) hc

@[grind ←]
theorem behaves_define (id : ObjectId) (key : Key) {d : Descriptor} (hd : d.isData = true) :
    Behaves (define id key d) :=
  (behavesSince_define fun _ _ => .of_isData hd).behaves

theorem leaves_noHalf : Leaves K (pure none) fun f s => s.IsHalf f := .pure fun _ _ => Store.isHalf_none

/-- The halves of an accessor that is there. -/
theorem leaves_halves {g h : Option ObjectId} {e c : Bool}
    (hd : ∀ s : Store, s.Since K → (Descriptor.accessor g h e c).Sound s) :
    Leaves K (pure g) (fun f s => s.IsHalf f) ∧ Leaves K (pure h) fun f s => s.IsHalf f :=
  ⟨.pure fun s hs => (Store.sound_accessor.mp (hd s hs)).1,
    .pure fun s hs => (Store.sound_accessor.mp (hd s hs)).2⟩

/-- An accessor of two halves that come one after the other. -/
theorem leaves_accessor {x y : Run (Option ObjectId)} {e c : Bool} (hx : Behaves x) (hy : Behaves y)
    (hleft : Leaves K x fun f s => s.IsHalf f) (hright : Leaves K y fun f s => s.IsHalf f) :
    Leaves K (do
      let g ← x
      let h ← y
      return Descriptor.accessor g h e c) fun d s => d.Sound s :=
  Leaves.bind hx.since hleft fun _ => Leaves.bind hy.since hright.behind fun _ =>
    .pure fun _ hs => Store.sound_accessor.mpr
      ⟨(hs.join fun _ h => h.2.imp fun _ _ h => h.1).isHalf, (hs.imp fun _ _ h => h.1).isHalf⟩

/-! ## Showing and throwing -/

@[grind ←]
theorem behaves_display (v : Value) : Behaves (display v) := by
  unfold display
  grind -linarith

@[grind ←]
theorem behaves_displayKey (k : Key) : Behaves (displayKey k) := by
  unfold displayKey
  grind -linarith

@[grind ←]
theorem behaves_newError (kind : ErrorKind) (message : String) :
    Behaves (newError kind message) := by
  unfold newError
  grind -linarith

@[grind ←]
theorem behaves_throwNew (kind : ErrorKind) (message : String) :
    Behaves (throwNew kind message : Run α) := by
  unfold throwNew
  grind -linarith

@[grind ←]
theorem behaves_throwType (message : String) : Behaves (throwType message : Run α) :=
  behaves_throwNew _ _

@[grind ←]
theorem behaves_throwReference (message : String) : Behaves (throwReference message : Run α) :=
  behaves_throwNew _ _

@[grind ←]
theorem behaves_throwRange (message : String) : Behaves (throwRange message : Run α) :=
  behaves_throwNew _ _

@[grind ←]
theorem behaves_throwSyntax (message : String) : Behaves (throwSyntax message : Run α) :=
  behaves_throwNew _ _

@[grind ←]
theorem behaves_throwValue (v : Value) : Behaves (throwValue v : Run α) := by
  unfold throwValue
  grind -linarith

@[grind ←]
theorem behaves_caughtValue (cause : EngineError) : Behaves (caughtValue cause) := by
  unfold caughtValue
  grind -linarith

@[grind ←]
theorem behaves_checkSize (size : Nat) (what : String) : Behaves (checkSize size what) := by
  unfold checkSize
  grind -linarith

/-! ## Requests -/

section Requests

variable [Machine] [SafeMachine]

@[grind ←]
theorem behaves_eval (e : Script.Expr) (env : EnvId) : Behaves (eval e env) :=
  SafeMachine.behaves _

@[grind ←]
theorem behaves_evalNamed (e : Script.Expr) (name : String) (env : EnvId) :
    Behaves (evalNamed e name env) := SafeMachine.behaves _

@[grind ←]
theorem behaves_exec (s : Script.Statement) (env : EnvId) : Behaves (exec s env) :=
  SafeMachine.behaves _

@[grind ←]
theorem behaves_call (f this : Value) (args : List Value) : Behaves (call f this args) :=
  SafeMachine.behaves _

@[grind ←]
theorem behaves_construct (f : Value) (args : List Value) (newTarget : ObjectId) :
    Behaves (construct f args newTarget) := SafeMachine.behaves _

@[grind ←]
theorem behaves_resolve (session : SessionId) (t : Tagged) : Behaves (resolve session t) :=
  SafeMachine.behaves _

@[grind ←]
theorem behaves_jsonOf (v : Value) (seen : List ObjectId) : Behaves (jsonOf v seen) :=
  SafeMachine.behaves _

omit [SafeMachine] in
@[grind ←]
theorem behaves_repeatFrom (start : σ) {action : σ → Run (σ ⊕ α)} (h : ∀ s, Behaves (action s)) :
    Behaves (repeatFrom start action) :=
  Behaves.iterate h _ start

end Requests

/-! ## Reading properties and converting values -/

@[grind ←]
theorem behaves_primitiveNumber (v : Value) : Behaves (primitiveNumber v) := by
  unfold primitiveNumber
  grind -linarith

@[grind ←]
theorem behaves_primitiveText (v : Value) : Behaves (primitiveText v) := by
  unfold primitiveText
  grind -linarith

@[grind ←]
theorem behaves_toObject (v : Value) : Behaves (toObject v) := by
  unfold toObject
  cases v with
  | object id => exact Behaves.pure id
  | undefined | null => exact behaves_throwType _
  | _ => exact behaves_get.bind fun _ => behaves_allocateWrapper _ rfl rfl

section Reading

variable [Machine] [SafeMachine]

@[grind ←]
theorem behaves_getFrom (start : ObjectId) (key : Key) (receiver : Value) :
    Behaves (getFrom start key receiver) := by
  unfold getFrom
  grind -linarith

@[grind ←]
theorem behaves_getOf (id : ObjectId) (name : String) : Behaves (getOf id name) :=
  behaves_getFrom _ _ _

@[grind ←]
theorem behaves_getProperty (base : Value) (key : Key) : Behaves (getProperty base key) := by
  unfold getProperty
  grind -linarith

@[grind ←]
theorem behaves_getNamed (base : Value) (name : String) : Behaves (getNamed base name) :=
  behaves_getProperty _ _

@[grind ←]
theorem behaves_prototypeFrom (constructor : Option ObjectId) (fallback : ObjectId) :
    Behaves (prototypeFrom constructor fallback) := by
  unfold prototypeFrom
  grind -linarith

@[grind ←]
theorem behaves_askMethods (id : ObjectId) (names : List String) :
    Behaves (askMethods id names) := by
  induction names with
  | nil => exact behaves_throwType _
  | cons name rest ih =>
    unfold askMethods
    grind -linarith

@[grind ←]
theorem behaves_toPrimitive (v : Value) (hint : Hint) : Behaves (toPrimitive v hint) := by
  unfold toPrimitive
  grind -linarith

@[grind ←]
theorem behaves_toNumber (v : Value) : Behaves (toNumber v) := by
  unfold toNumber
  grind -linarith

@[grind ←]
theorem behaves_toNumeric (v : Value) : Behaves (toNumeric v) := by
  unfold toNumeric
  grind -linarith

@[grind ←]
theorem behaves_toText (v : Value) : Behaves (toText v) := by
  unfold toText
  grind -linarith

@[grind ←]
theorem behaves_toKey (v : Value) : Behaves (toKey v) := by
  unfold toKey
  grind -linarith

end Reading

/-! ## Changing properties -/

theorem behavesSince_defineOrThrow {id : ObjectId} {key : Key} {d : Descriptor}
    (hd : ∀ s : Store, s.Since K → d.Sound s) : BehavesSince K (defineOrThrow id key d) := by
  unfold defineOrThrow
  refine (behaves_objectAt id).since.bind fun o => (behavesSince_define hd).bind fun done => ?_
  refine Behaves.since ?_
  grind -linarith

@[grind ←]
theorem behaves_defineOrThrow (id : ObjectId) (key : Key) {d : Descriptor} (hd : d.isData = true) :
    Behaves (defineOrThrow id key d) :=
  (behavesSince_defineOrThrow fun _ _ => .of_isData hd).behaves

@[grind ←]
theorem behaves_addProperty (id : ObjectId) (key : Key) (v : Value) :
    Behaves (addProperty id key v) :=
  behaves_defineOrThrow _ _ rfl

@[grind ←]
theorem behaves_newObject : Behaves newObject := by
  unfold newObject
  grind -linarith

/-- A new array is sound when it has got its length. -/
theorem behaves_allocateArray {prototype : Option ObjectId} {f : ObjectId → Run α}
    (hf : ∀ id, Behaves (f id)) : Behaves (do
      let id ← allocate prototype .array
      let _ ← define id .length newLength
      f id) := by
  have hruns : Runs (do
      let id ← allocate prototype .array
      let _ ← define id .length newLength
      f id) :=
    (behavesSince_allocate fun _ hs => absurd hs not_since_false).bind fun id =>
      (behaves_define id _ rfl).since.bind fun _ => (hf id).since
  refine ⟨⟨hruns.runs, fun r hr hs => ?_⟩, hruns.steady⟩
  let o : Object := { prototype, kind := .array }
  let o' : Object := { o with properties := (∅ : Table Key Descriptor).insert .length newLength }
  let r₁ : Realm := { r with store := ⟨r.store.objects.push o⟩ }
  let r₂ : Realm := { r with store := r₁.store.set r.store.size o' }
  have hmade : Yields (allocate prototype .array) r r.store.size r₁ := yields_allocate prototype .array r
  have hget : r₁.store.get r.store.size = .ok o := Store.get_push_size o
  have hdefine : o.define? .length newLength = some o' := rfl
  have hdefined : Yields (define r.store.size .length newLength) r₁ true r₂ := yields_define hget hdefine
  have ho' : o'.Sound r.store := by
    refine ⟨trivial, fun d hd => ?_, fun _ => ⟨_, _, _, rfl⟩⟩
    rw [List.mem_singleton.mp hd]
    trivial
  have hevolves : r.store.Evolves r₂.store := by
    rw [show r₂.store = _ from Store.set_push_size o o']
    exact Store.evolves_push hs ho'
  rw [hmade.run_bind, hdefined.run_bind]
  exact hevolves.trans ((hf r.store.size).ends.evolves r₂ hr hevolves.sound)

@[grind ←]
theorem behaves_newArray (items : List Value) : Behaves (newArray items) := by
  unfold newArray
  refine behaves_get.bind fun r => behaves_allocateArray fun id => ?_
  grind -linarith

@[grind ←]
theorem behaves_deleteProperty (base : Value) (key : Key) : Behaves (deleteProperty base key) := by
  unfold deleteProperty
  cases base with
  | object id =>
    refine (behaves_changeStore fun _ _ _ hs h => Store.evolves_of_delete hs h).bind fun done => ?_
    grind -linarith
  | _ => grind -linarith

/-- A byte is written where there is one. -/
@[grind ←]
theorem behaves_writeByte (window index : Nat) (x : Float) : Behaves (writeByte window index x) := by
  unfold writeByte
  refine (behaves_kindOf window).bind fun kind => ?_
  split
  · next buffer offset length =>
    split
    · refine (behavesSince_kindOf_bind (fun k => ?_) fun r k hs hkind => ?_).behaves
      · split
        · extract_lets i
          split
          · exact behavesSince_setKind fun _ hs => absurd hs not_since_false
          · exact (Behaves.pure _).since
        · exact (Behaves.pure _).since
      · split
        · extract_lets i
          split
          · exact evolves_setKind hs.sound hkind (.buffer (.written _ _))
          · exact .refl hs.sound
        · exact .refl hs.sound
    · exact Behaves.pure _
  · exact Behaves.pure _

section Changing

variable [Machine] [SafeMachine]

@[grind ←]
theorem behaves_setProperty (base : Value) (key : Key) (v : Value) :
    Behaves (setProperty base key v) := by
  unfold setProperty
  cases base with
  | object id =>
    refine (behaves_kindOf id).bind fun kind => ?_
    dsimp only
    split
    · grind -linarith
    · refine (behaves_ofStore _).bind fun found => ?_
      grind -linarith
  | _ => grind -linarith

@[grind ←]
theorem behaves_arrayItems (id : ObjectId) : Behaves (arrayItems id) := by
  unfold arrayItems
  grind -linarith

@[grind ←]
theorem behaves_iterated (v : Value) : Behaves (iterated v) := by
  unfold iterated
  grind -linarith

end Changing

/-! ## Variables -/

@[grind ←]
theorem behaves_newEnvironment (e : Environment) : Behaves (newEnvironment e) :=
  behaves_modifyGet (fun _ => .environment e) fun _ => rfl

@[grind ←]
theorem behaves_newBlock (parent : EnvId) : Behaves (newBlock parent) := behaves_newEnvironment _

@[grind ←]
theorem behaves_environmentAt (id : EnvId) : Behaves (environmentAt id) := by
  unfold environmentAt
  grind -linarith

@[grind ←]
theorem behaves_changeEnvironment (id : EnvId) (f : Environment → Environment) :
    Behaves (changeEnvironment id f) :=
  behaves_modify (fun _ => .changedEnvironment id f) fun _ => rfl

@[grind ←]
theorem behaves_setCell (id : EnvId) (name : String) (cell : Cell) :
    Behaves (setCell id name cell) :=
  behaves_changeEnvironment _ _

@[grind ←]
theorem behaves_declare (id : EnvId) (name : String) (cell : Cell) :
    Behaves (declare id name cell) := by
  unfold declare
  grind -linarith

@[grind ←]
theorem behaves_declareVar (id : EnvId) (name : String) : Behaves (declareVar id name) := by
  unfold declareVar
  grind -linarith

@[grind ←]
theorem behaves_initializeVariable (id : EnvId) (name : String) (v : Value) :
    Behaves (initializeVariable id name v) := by
  unfold initializeVariable
  grind -linarith

@[grind ←]
theorem behaves_holderOf (id : EnvId) (name : String) : Behaves (holderOf id name) := by
  unfold holderOf
  grind -linarith

@[grind ←]
theorem behaves_throwUninitialized (name : String) :
    Behaves (throwUninitialized name : Run α) :=
  behaves_throwReference _

@[grind ←]
theorem behaves_thisValue (id : EnvId) : Behaves (thisValue id) := by
  unfold thisValue
  grind -linarith

@[grind ←]
theorem behaves_homeObject (id : EnvId) : Behaves (homeObject id) := by
  unfold homeObject
  grind -linarith

/-- A table that waits for no session. -/
@[grind ←]
theorem behaves_newScope {t : ScopeTable} (h : t.session = none) : Behaves (newScope t) :=
  behaves_modifyGet (fun _ => .scope fun i hi => by rw [h] at hi; cases hi) fun _ => rfl

@[grind ←]
theorem behaves_setCaptured (id : TableId) (name : String) (v : Value) :
    Behaves (setCaptured id name v) :=
  behaves_modify (fun _ => .settled id name v) fun _ => rfl

@[grind ←]
theorem behaves_leave (id : TableId) :
    Behaves (changeScope id fun t => { t with session := none }) :=
  behaves_modify (fun _ => .left id) fun _ => rfl

@[grind ←]
theorem behaves_scopeAt (id : EnvId) : Behaves (scopeAt id) := by
  unfold scopeAt
  grind -linarith

@[grind ←]
theorem behaves_writeScope (id : TableId) (name : String) (v : Value) :
    Behaves (writeScope id name v) := by
  unfold writeScope
  grind -linarith

section Variables

variable [Machine] [SafeMachine]

@[grind ←]
theorem behaves_readVariable (id : EnvId) (name : String) : Behaves (readVariable id name) := by
  unfold readVariable
  grind -linarith

@[grind ←]
theorem behaves_writeVariable (id : EnvId) (name : String) (v : Value) :
    Behaves (writeVariable id name v) := by
  unfold writeVariable
  grind -linarith

@[grind ←]
theorem behaves_readScope (id : TableId) (name : String) : Behaves (readScope id name) := by
  unfold readScope
  grind -linarith

end Variables

end Stasis
