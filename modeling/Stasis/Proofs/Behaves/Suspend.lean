import Mathlib
import Stasis.Proofs.Behaves.Realm
import Stasis.Proofs.Moderate

/-!
# Suspending behaves, and its envelopes are closed

Scripts may run in the middle of a walk: getters of errors, thunks of captured names, expressions of
members. They change the realm, and never the pass, which goes from one part of the walk to the next.

* `Explores`: what a part of a walk adds to what has been written before it.
* `Explores.bind`, `Explores.lift`, `explores_mapM`: parts one after another.
* `explores_entryOf`, `explores_suspendObject`: the entry of an object, and the object around it.
* `ends_serialize`: the envelope of a value is closed, and an interchange text can hold it.
-/

namespace Stasis

variable {α β γ : Type}

/-! ## Parts of a walk -/

/-- After a walk that has written `ts`, this part of it behaves; what has been written then depends
on its answer. -/
structure Explores (ts : List Tagged) (x : Walk α) (us : α → List Tagged) : Prop where
  ends : ∀ p₀ p : Pass, p₀.Explored p ts → Ends (x.run p) fun out => p₀.Explored out.2 (us out.1)
  steady : ∀ (p : Pass) heaps, Steady heaps (x.run p)

section Explores

variable {ts : List Tagged} {x : Walk α} {us : α → List Tagged} {vs : β → List Tagged}
  {f : α → Walk β} {y : Run α} {a : α}

theorem Explores.bind (hx : Explores ts x us) (hf : ∀ a, Explores (us a) (f a) vs) :
    Explores ts (x >>= f) vs where
  ends p₀ p hp := by
    rw [StateT.run_bind]
    exact (hx.ends p₀ p hp).bind fun out hout => (hf out.1).ends p₀ out.2 hout
  steady p heaps := by
    rw [StateT.run_bind]
    exact (hx.steady p heaps).bind fun out => (hf out.1).steady out.2 heaps

theorem Explores.pure (h : (∀ t ∈ ts, t.IsSafe) → ∀ t, t ∈ us a ↔ t ∈ ts) :
    Explores ts (Pure.pure a) us where
  ends _ _ hp := Ends.pure (hp.congr (h fun t ht => (hp.knows t ht).safe))
  steady _ _ := Steady.pure _

/-- An action in the realm is as steady in a walk. -/
theorem steady_lift {heaps : List (Table String Entry)} (hy : Steady heaps y) (p : Pass) :
    Steady heaps ((liftM y : Walk α).run p) :=
  hy.bind fun _ => Steady.pure _

/-- What is done in the realm leaves the pass alone. -/
theorem Behaves.explores (hy : Behaves y) (hf : ∀ a, Explores ts (f a) vs) :
    Explores ts (liftM y >>= f) vs where
  ends p₀ p hp := by
    have hlift : Ends ((liftM y : Walk α).run p) fun out => out.2 = p :=
      hy.bind_ends fun a => Ends.pure rfl
    rw [StateT.run_bind]
    refine hlift.bind fun out hout => ?_
    rw [hout]
    exact (hf out.1).ends p₀ p hp
  steady p heaps := by
    rw [StateT.run_bind]
    exact (steady_lift (hy.steady heaps) p).bind fun out => (hf out.1).steady out.2 heaps

theorem explores_raise {cause : EngineError} (h : cause.isInternal = false) :
    Explores ts (liftM (raise cause : Run α)) us where
  ends p₀ p _ := by
    have hlift : Ends ((raise cause : Run α) >>= fun a => Pure.pure (a, p))
        fun out => p₀.Explored out.2 (us out.1) :=
      Ends.bind (ends_throw (.error cause) h fun _ => False) fun _ => False.elim
    exact hlift
  steady p _ := steady_lift (steady_throw _) p

theorem run_get_bind (g : Pass → Walk β) (p : Pass) : (get >>= g).run p = (g p).run p := by
  rw [StateT.run_bind, StateT.run_get, pure_bind]

/-- What has been written does not depend on looking at the pass. -/
theorem explores_get {g : Pass → Walk β} (hg : ∀ p, Explores ts (g p) vs) :
    Explores ts (get >>= g) vs :=
  ⟨fun p₀ p hp => run_get_bind g p ▸ (hg p).ends p₀ p hp, fun p => run_get_bind g p ▸ (hg p).steady p⟩

/-- What is written of the items of a list, one after another. -/
theorem explores_mapM {g : γ → Walk β} (hg : ∀ c ts, Explores ts (g c) fun b => vs b ++ ts)
    (l : List γ) : ∀ ts, Explores ts (l.mapM g) fun bs => bs.flatMap vs ++ ts := by
  induction l with
  | nil => exact fun ts => Explores.pure fun _ t => by simp
  | cons c l ih =>
    intro ts
    rw [List.mapM_cons]
    refine (hg c ts).bind fun b => (ih _).bind fun bs => Explores.pure fun _ t => ?_
    simp only [List.flatMap_cons, List.mem_append]
    tauto

end Explores

/-! ## Reading what is to be written -/

@[grind ←]
theorem behaves_realm : Behaves realm := behaves_get

@[grind ←]
theorem behaves_referenceFor (id : ObjectId) : Behaves (referenceFor id) :=
  behaves_modifyGet (fun _ => .objectReference id) fun _ => rfl

@[grind ←]
theorem behaves_recordPath (id : ObjectId) (path : String) : Behaves (recordPath id path) :=
  behaves_modify (fun _ => .path id path) fun _ => rfl

@[grind ←]
theorem behaves_functionName (id : ObjectId) : Behaves (functionName id) := by
  unfold functionName
  grind -linarith

@[grind ←]
theorem behaves_describeFunction (id : ObjectId) : Behaves (describeFunction id) := by
  unfold describeFunction
  grind -linarith

/-- A safe value that stands for no entry. -/
def Tagged.IsPlain (t : Tagged) : Prop := t.IsSafe ∧ t.reference? = none

theorem Tagged.IsPlain.cons {p p' : Pass} {ts : List Tagged} {t : Tagged} (h : t.IsPlain)
    (hp : p.Explored p' ts) : p.Explored p' (t :: ts) := by
  refine hp.cons h.1 ?_
  rintro reference rfl
  cases h.2

theorem ends_taggedSymbol (id : SymbolId) : Ends (taggedSymbol id) Tagged.IsPlain := by
  have hrun : ∀ r : Realm, ∃ t ρ,
      r.run (taggedSymbol id) = (.ok t, { r with references := ρ }) ∧ t.IsPlain := by
    intro r
    unfold taggedSymbol
    rw [(yields_get r).run_bind]
    split
    · exact ⟨_, r.references, rfl, fun _ => rfl, rfl⟩
    · exact ⟨_, _, rfl, fun _ => rfl, rfl⟩
  refine ⟨fun r hr => ?_, fun r hr hs => ?_⟩ <;> obtain ⟨t, ρ, hrun, ht⟩ := hrun r <;> rw [hrun]
  · exact ⟨hr, ht⟩
  · exact .refl hs

theorem steady_taggedSymbol (id : SymbolId) (heaps : List (Table String Entry)) :
    Steady heaps (taggedSymbol id) := by
  unfold taggedSymbol
  refine steady_get_bind fun r past hr => ?_
  split
  · exact ⟨_, r, past, .pure _ _, fun _ => .refl r⟩
  · have hset : Passes heaps (set { r with references := (r.references.ofSymbol id).2 } : Run PUnit)
        (r :: past) (.ok ()) ({ r with references := (r.references.ofSymbol id).2 } :: r :: past) :=
      .modify (f := fun _ => { r with references := (r.references.ofSymbol id).2 }) past
        (.change (.symbolReference id)) hr
    exact ⟨_, _, _, hset.bind (.pure _ _), fun _ => ⟨rfl, rfl⟩⟩

theorem ends_taggedKey (key : Key) : Ends (taggedKey key) Tagged.IsPlain := by
  cases key with
  | text s => exact Ends.pure ⟨fun _ => rfl, rfl⟩
  | symbol id => exact ends_taggedSymbol id

theorem steady_taggedKey (key : Key) (heaps : List (Table String Entry)) :
    Steady heaps (taggedKey key) := by
  cases key with
  | text s => exact Steady.pure _
  | symbol id => exact steady_taggedSymbol id heaps

/-- What stands for a finite number in a text is finite. -/
theorem isSafe_jsonOfNumber (x : Float) : (Tagged.simple (jsonOfNumber x)).IsSafe := by
  intro place
  unfold jsonOfNumber
  split
  · rfl
  · next hfinite =>
    have hx : x.isFinite = true := by simpa using hfinite
    split
    · next hwhole =>
      obtain ⟨-, hlt⟩ := Bool.and_eq_true_iff.mp hwhole
      exact if_pos (Number.isFinite_ofInt_integerPart hx (of_decide_eq_true hlt))
    · exact if_pos hx

theorem isPlain_taggedNumber (x : Float) : (taggedNumber x).IsPlain := by
  unfold taggedNumber
  split
  · exact ⟨fun _ => rfl, rfl⟩
  · split
    · split <;> exact ⟨fun _ => rfl, rfl⟩
    · split
      · exact ⟨fun _ => rfl, rfl⟩
      · exact ⟨isSafe_jsonOfNumber x, rfl⟩

theorem Tagged.IsPlain.explores {ts : List Tagged} {t : Tagged} (h : t.IsPlain) :
    Explores ts (Pure.pure t) fun t => t :: ts :=
  ⟨fun _ _ hp => Ends.pure (h.cons hp), fun _ _ => Steady.pure _⟩

/-- A value that is written by itself. -/
theorem explores_plain {ts : List Tagged} {y : Run Tagged} (hy : Ends y Tagged.IsPlain)
    (hsteady : ∀ heaps, Steady heaps y) : Explores ts (liftM y) fun t => t :: ts where
  ends _ _ hp := hy.bind fun _ ht => Ends.pure (ht.cons hp)
  steady p heaps := steady_lift (hsteady heaps) p

section Machine

variable [Machine] [SafeMachine]

@[grind ←]
theorem behaves_capturedValues (scope : ScopeSource) : Behaves (capturedValues scope) := by
  unfold capturedValues
  cases scope with
  | thunk function =>
    refine (behaves_call _ _ _).bind fun answer => ?_
    grind -linarith
  | table table => grind -linarith

@[grind ←]
theorem behaves_evalMember (class_ : Value) (expression : String) :
    Behaves (evalMember class_ expression) := by
  unfold evalMember
  split
  · exact behaves_raise rfl
  · grind -linarith

@[grind ←]
theorem behaves_textOf? (v : Value) (name : String) : Behaves (textOf? v name) := by
  unfold textOf?
  grind -linarith

end Machine

/-- The values in a property. -/
def Slot.values (s : Slot) : List Tagged := s.value.toList ++ s.get.toList ++ s.set.toList

/-- An entry that is written in a place that was taken before. -/
theorem run_fill (reference : String) (x : Walk Entry) (p : Pass) :
    (do
      modify fun p => { p with entries := p.entries.insert reference none }
      let entry ← x
      modify fun p => { p with entries := p.entries.insert reference (some entry) }
      return .entry reference : Walk Tagged).run p =
    x.run (p.put reference none) >>= fun out =>
      Pure.pure (Tagged.entry reference, out.2.put reference (some out.1)) := by
  simp only [StateT.run_bind, StateT.run_modify, StateT.run_pure, pure_bind]
  rfl

/-! ## Walking -/

section Machine

variable [Machine] [SafeMachine] {ts : List Tagged}

theorem explores_child (v : Value) (parent : Option String) (step : PathStep) :
    Explores ts (child v parent step) fun t => t :: ts where
  ends p₀ p hp := by
    have hsuspend := SafeMachine.explores p v (step.apply parent)
    unfold child
    rw [run_get_bind]
    split
    · exact Ends.pure (hp.cons (fun _ => rfl) nofun)
    · have hlift : Ends ((liftM (suspendAt p v (step.apply parent)) : Walk (Tagged × Pass)).run p)
          fun out => p.Explored out.1.2 [out.1.1] :=
        hsuspend.bind fun _ hout => Ends.pure hout
      rw [StateT.run_bind]
      refine hlift.bind fun out hout => ?_
      rw [StateT.run_bind, StateT.run_set, pure_bind]
      exact Ends.pure (hp.trans hout)
  steady p heaps := by
    have hsuspend := (SafeMachine.behaves (.suspend p v (step.apply parent))).steady heaps
    unfold child
    rw [run_get_bind]
    split
    · exact Steady.pure _
    · rw [StateT.run_bind]
      refine (steady_lift hsuspend p).bind fun out => ?_
      rw [StateT.run_bind, StateT.run_set, pure_bind]
      exact Steady.pure _

theorem explores_slotOf (key : Key) (d : Descriptor) (path : Option String) :
    Explores ts (slotOf key d path) fun s => s.values ++ ts := by
  unfold slotOf
  refine behaves_realm.explores fun r => ?_
  cases d with
  | data v w e c =>
    refine (explores_child v path _).bind fun value => Explores.pure fun _ t => ?_
    simp [Slot.values]
  | accessor g s e c =>
    refine (explores_child _ path _).bind fun get => (explores_child _ path _).bind fun set => ?_
    refine Explores.pure fun _ t => ?_
    simp only [Slot.values, Option.toList, List.mem_append, List.mem_cons, List.not_mem_nil]
    tauto

theorem explores_functionPayload (id : ObjectId) (path : Option String) :
    Explores ts (functionPayload id path) fun payload => payload.values ++ ts := by
  unfold functionPayload
  refine behaves_realm.explores fun r => ?_
  split
  · next scope text h =>
    refine (behaves_capturedValues scope).explores fun captured => ?_
    have hcapture : ∀ (c : String × Value) (ts : List Tagged), Explores ts (do
        return (c.1, ← child c.2 path .unknown) : Walk (String × Tagged)) fun b => [b.2] ++ ts :=
      fun c ts => (explores_child c.2 path .unknown).bind fun t => Explores.pure fun _ u => by simp
    refine (explores_mapM hcapture captured ts).bind fun captures => Explores.pure fun _ t => ?_
    simp [Payload.values, List.mem_flatMap]
  · next owner expression h =>
    refine (behaves_evalMember _ expression).explores fun current => ?_
    refine (explores_child _ path _).bind fun class_ => Explores.pure fun _ t => ?_
    simp [Payload.values]
  · refine behaves_realm.explores fun r' => ?_
    split
    · exact Explores.pure fun _ t => by simp [Payload.values]
    · exact (behaves_referenceFor id).explores fun reference =>
        (behaves_describeFunction id).explores fun text => explores_raise rfl

/-- A payload with one value. -/
theorem explores_single {make : Tagged → Payload} (hmake : ∀ t, (make t).values = [t]) (v : Value)
    (path : Option String) (step : PathStep) :
    Explores ts (do return make (← child v path step) : Walk Payload)
      fun payload => payload.values ++ ts :=
  (explores_child v path step).bind fun t => Explores.pure fun _ u => by simp [hmake]

omit [Machine] [SafeMachine] in
/-- A payload without values. -/
theorem explores_flat {payload : Payload} (h : payload.values = []) :
    Explores ts (Pure.pure payload) fun payload => payload.values ++ ts :=
  Explores.pure fun _ t => by simp [h]

theorem explores_payloadOf (type : ObjectType) (id : ObjectId) (path : Option String) :
    Explores ts (payloadOf type id path) fun payload => payload.values ++ ts := by
  unfold payloadOf
  refine (behaves_kindOf id).explores fun kind => ?_
  split
  · exact behaves_realm.explores fun r => explores_single (fun _ => rfl) _ _ _
  · exact explores_functionPayload id path
  · next entries =>
    have hentry : ∀ (c : CollectionKey × Value) (ts : List Tagged), Explores ts (do
        let key ← child c.1.toValue path .unknown
        let value ← child c.2 path .unknown
        return (key, value) : Walk (Tagged × Tagged)) fun b => [b.1, b.2] ++ ts :=
      fun c ts => (explores_child _ path _).bind fun key => (explores_child _ path _).bind fun value =>
        Explores.pure fun _ t => by simp only [List.mem_append, List.mem_cons]; tauto
    exact (explores_mapM hentry entries.entries ts).bind fun written => Explores.pure fun _ t => Iff.rfl
  · next elements =>
    have helement : ∀ (c : CollectionKey × ℕ) (ts : List Tagged),
        Explores ts (child c.1.toValue path (.setElement c.2)) fun t => [t] ++ ts :=
      fun c ts => explores_child _ path _
    refine (explores_mapM helement elements.keys.zipIdx ts).bind fun written =>
      Explores.pure fun _ t => ?_
    simp [Payload.values]
  · exact explores_single (fun _ => rfl) _ _ _
  · exact explores_flat rfl
  · exact (behaves_textOf? _ _).explores fun message => (behaves_textOf? _ _).explores fun name =>
      (behaves_textOf? _ _).explores fun stack => explores_flat rfl
  · exact explores_flat rfl
  · exact explores_single (fun _ => rfl) _ _ _
  · exact explores_single (fun _ => rfl) _ _ _
  · exact explores_flat rfl
  · exact explores_flat rfl
  · exact (explores_child _ path _).bind fun t => Explores.pure fun _ u => by simp [Payload.values]
  · exact explores_flat rfl

/-- **The entry of an object mentions what has been written for it**, and nothing else. -/
theorem explores_entryOf (id : ObjectId) (reference : String) (path : Option String) :
    Explores ts (entryOf id reference path) fun e => e.mentions ++ ts := by
  unfold entryOf
  refine (behaves_objectAt id).explores fun o => behaves_realm.explores fun r => ?_
  extract_lets types type kept rest
  have hrest : ∀ u, Explores ts (rest u) fun e => e.mentions ++ ts := by
    intro u
    have hproperty : ∀ (c : Key × Descriptor) (ts : List Tagged), Explores ts (do
        let tagged ← taggedKey c.1
        return (tagged, ← slotOf c.1 c.2 path) : Walk (Tagged × Slot))
        fun b => b.1 :: b.2.values ++ ts :=
      fun c ts => (explores_plain (ends_taggedKey c.1) (steady_taggedKey c.1)).bind fun tagged =>
        (explores_slotOf c.1 c.2 path).bind fun slot => Explores.pure fun _ t => by
          simp only [List.mem_append, List.mem_cons]
          tauto
    refine (explores_mapM hproperty kept ts).bind fun properties => ?_
    refine (behaves_objectAt id).explores fun o' => ?_
    refine (explores_child _ path _).bind fun prototype => ?_
    extract_lets finish
    -- the values in a payload are found again, as they are flat
    have hfinish : ∀ (objectType : String) (payload : Json) (values : List Tagged),
        ((∀ t ∈ values, t.IsSafe) → payloadValues payload = values) →
          Explores (values ++ prototype :: (properties.flatMap (fun q => q.1 :: q.2.values) ++ ts))
            (finish (objectType, payload)) fun e => e.mentions ++ ts := by
      intro objectType payload values hpayload
      refine (behaves_objectAt id).explores fun o'' => Explores.pure fun hsafe t => ?_
      have hvalues := hpayload fun t ht => hsafe t (List.mem_append_left _ ht)
      simp only [Entry.mentions, Entry.values, Slot.values, hvalues, List.mem_append, List.mem_cons]
      tauto
    clear_value finish type
    cases type with
    | some t =>
      refine (explores_payloadOf t id path).bind fun payload => ?_
      rw [pure_bind]
      exact hfinish _ _ _ fun hsafe => Payload.payloadValues_toJson fun t ht => (hsafe t ht).isFlat
    | none =>
      rw [pure_bind]
      exact hfinish _ _ [] fun _ => rfl
  split
  · exact (explores_raise rfl).bind hrest
  · exact hrest ()

/-- **The entry of an object stands for it**, whether it has been there or is written now. -/
theorem explores_referenceFor (id : ObjectId) (path : Option String) :
    Explores ts (do
      let reference ← referenceFor id
      if !(← get).entries.contains reference then
        modify fun p => { p with entries := p.entries.insert reference none }
        let entry ← entryOf id reference path
        modify fun p => { p with entries := p.entries.insert reference (some entry) }
      return .entry reference : Walk Tagged) fun t => t :: ts := by
  refine (behaves_referenceFor id).explores fun reference => ⟨fun p₀ p hp => ?_, fun p heaps => ?_⟩ <;>
    rw [run_get_bind]
  · cases hc : p.entries.contains reference with
    | true =>
      refine Ends.pure (hp.cons (fun _ => rfl) ?_)
      rintro _ ⟨⟩
      exact hc
    | false =>
      -- the place is taken before the walk through what the object refers to
      have hwalk := (explores_entryOf id reference path).ends _ _
        (Pass.Explored.refl (p.put reference none))
      simp only [Bool.not_false, if_true, run_fill]
      refine hwalk.bind fun out hout => Ends.pure (hp.trans (Pass.Explored.fill hc ?_))
      exact hout.congr fun t => by simp
  · cases p.entries.contains reference with
    | true => exact Steady.pure _
    | false =>
      have hwalk : Explores ts (entryOf id reference path) _ := explores_entryOf id reference path
      simp only [Bool.not_false, if_true, run_fill]
      exact (hwalk.steady _ heaps).bind fun out => Steady.pure _

/-- **An object is reached by what stands for it**, and so is everything behind it. -/
theorem explores_suspendObject (id : ObjectId) (path : Option String) :
    Explores ts (suspendObject id path) fun t => t :: ts := by
  unfold suspendObject
  refine behaves_realm.explores fun r => ?_
  split
  · exact Tagged.IsPlain.explores ⟨fun _ => rfl, rfl⟩
  · refine explores_get fun p => (behaves_kindOf id).explores fun kind => ?_
    extract_lets refer
    have hrefer : ∀ u, Explores ts (refer u) fun t => t :: ts := fun _ =>
      explores_referenceFor id path
    clear_value refer
    split
    · exact Tagged.IsPlain.explores ⟨fun _ => rfl, rfl⟩
    · cases path with
      | some path => exact (behaves_recordPath id path).explores hrefer
      | none => exact hrefer ()

/-! ## Values and envelopes -/

theorem explores_taggedValue (v : Value) (path : Option String) :
    Explores ts (taggedValue v path) fun t => t :: ts := by
  unfold taggedValue
  cases v with
  | number x => exact (isPlain_taggedNumber x).explores
  | symbol id => exact explores_plain (ends_taggedSymbol id) (steady_taggedSymbol id)
  | object id => exact explores_suspendObject id path
  | _ => exact Tagged.IsPlain.explores ⟨fun _ => rfl, rfl⟩

/-- **A walk writes a value with everything that it refers to.** -/
theorem ends_suspendValue (p : Pass) (v : Value) (path : Option String) :
    Ends (suspendValue p v path) fun out => p.Explored out.2 [out.1] :=
  (explores_taggedValue v path).ends p p (.refl p)

theorem behaves_suspendValue (p : Pass) (v : Value) (path : Option String) :
    Behaves (suspendValue p v path) :=
  have hwalk : Explores [] (taggedValue v path) _ := explores_taggedValue v path
  (ends_suspendValue p v path).behaves (hwalk.steady p)

/-- The walk from a value gives a closed envelope that an interchange text can hold. -/
theorem ends_walkFrom (stop : Bool) (v : Value) (path : Option String) :
    Ends (walkFrom {} stop v path) fun e => e.IsClosed ∧ e.checkSafe = .ok () := by
  unfold walkFrom
  refine (SafeMachine.explores _ v path).bind ?_
  rintro ⟨root, p⟩ (hout : Pass.Explored { entries := {}, stop } p [root])
  have hfull : ∀ q ∈ p.entries.entries, q.2 ≠ none := by
    rintro ⟨reference, x⟩ hq rfl
    cases hout.le.finished reference (Table.find?_eq_some_iff.mpr hq)
  obtain ⟨l, hmap⟩ := exists_finished hfull
  have hentries : p.entries = (Table.ofList l).map some := Table.eq_map_ofList hmap
  have hlist : Ends (ofExcept (.ok l)) (· = l) := CaughtAs.ends rfl
  dsimp only
  rw [finishedEntries_eq_ok_iff.mpr hmap]
  refine hlist.bind ?_
  rintro _ rfl
  exact Ends.pure ⟨hout.isClosed hentries, hout.checkSafe hentries⟩

theorem steady_walkFrom (known : Table String Entry) (stop : Bool) (v : Value)
    (path : Option String) (heaps : List (Table String Entry)) :
    Steady heaps (walkFrom known stop v path) := by
  unfold walkFrom
  refine ((SafeMachine.behaves (.suspend _ v path)).steady heaps).bind fun out => ?_
  exact (steady_ofExcept _).bind fun entries => Steady.pure _

/-- **The envelope of a value is closed, and an interchange text can hold it.** -/
theorem ends_serialize (v : Value) (options : SuspendOptions) (h : options.known = {}) :
    Ends (serialize v options) fun e => e.IsClosed ∧ e.checkSafe = .ok () := by
  unfold serialize
  refine Ends.noted ?_ _ _ fun outcome => by cases outcome <;> exact Behaves.pure _
  rw [h]
  refine (ends_walkFrom _ v _).bind fun e he => behaves_get.bind_ends fun r => ?_
  split
  · rw [he.2]
    exact (Behaves.pure ()).bind_ends fun _ => Ends.pure he
  · exact Ends.pure he

theorem steady_serialize (v : Value) (options : SuspendOptions)
    (heaps : List (Table String Entry)) : Steady heaps (serialize v options) := by
  unfold serialize
  refine Steady.noted ?_ _ _ fun outcome => by cases outcome <;> exact Steady.pure _
  refine (steady_walkFrom _ _ v _ heaps).bind fun e => steady_get.bind fun r => ?_
  split
  · exact (steady_ofExcept _).bind fun _ => Steady.pure e
  · exact Steady.pure e

theorem behaves_registerHostRoot (v : Value) (path : String) :
    Behaves (registerHostRoot v path) := by
  unfold registerHostRoot
  refine behaves_get.bind fun r => Behaves.noted ?_ _ _ fun outcome => by
    cases outcome <;> exact Behaves.pure _
  exact ((ends_walkFrom _ v _).behaves (steady_walkFrom _ _ v _)).bind fun e =>
    behaves_get.bind fun r' => Behaves.pure _

end Machine

end Stasis
