import Mathlib
import Stasis.Proofs.Supplied
import Stasis.Proofs.Wire

/-!
# Envelopes that read back

Every entry that a walk writes is formed: flat values outside the payload, and a payload that is left
out or the written form of one. A formed envelope is read back from its interchange value as it was,
with entries, properties and fields of payloads in their order.

* `Entry.IsFormed`, `Envelope.IsFormed`: formed entries and envelopes.
* `Payload.normal_toJson`: the written form of a payload gives every field once.
* `Envelope.ofJson?_toJson`: a formed envelope reads back.
* `Walk.Answers`: what the answers of a walk have in common, wherever it begins.
* `Yields.isFormed`: what `serialize` writes is formed.
-/

namespace Stasis

/-! ## Formed entries -/

/-- The values outside the payload are flat, and the payload is null or the written form of a payload
whose values are. -/
structure Entry.IsFormed (e : Entry) : Prop where
  values : ∀ t ∈ e.values, t.IsFlat
  payload : e.payload = .null ∨ ∃ p : Payload, e.payload = p.toJson ∧ ∀ t ∈ p.values, t.IsFlat

/-- The root is flat, and all entries are formed. -/
structure Envelope.IsFormed (e : Envelope) : Prop where
  root : e.root.IsFlat
  entry : ∀ q ∈ e.entries.entries, q.2.IsFormed

/-! ## Fields given once -/

theorem normalItems_eq {items : List Json} (h : ∀ j ∈ items, j.normal = j) :
    normalItems items = items := by
  induction items with
  | nil => rfl
  | cons j items ih =>
    obtain ⟨hj, hitems⟩ := List.forall_mem_cons.mp h
    rw [normalItems, hj, ih hitems]

theorem Tagged.normal_toJson {t : Tagged} (h : t.IsFlat) : t.toJson.normal = t.toJson := by
  cases t with
  | simple j => simp [toJson, Json.normal, normalFields, setField, normal_of_isFlat h]
  | ownSymbol reference description =>
    cases description <;> simp [toJson, Json.normal, normalFields, setField]
  | _ => simp [toJson, Json.normal, normalFields, setField]

/-- **The written form of a payload gives every field once.** -/
theorem Payload.normal_toJson {p : Payload} (h : ∀ t ∈ p.values, t.IsFlat) :
    p.toJson.normal = p.toJson := by
  cases p with
  | empty | regexp | pending => simp [toJson, Json.normal, normalFields, setField]
  | buffer => simp [toJson, Json.normal, normalFields, setField, Json.ofNat]
  | error message name stack =>
    cases stack <;> simp [toJson, Json.normal, normalFields, setField]
  | date time =>
    have hnumber : ∀ x, (jsonOfNumber x).normal = jsonOfNumber x := by
      intro x
      unfold jsonOfNumber
      split_ifs <;> rfl
    cases time <;> simp [toJson, Json.normal, normalFields, setField, hnumber]
  | classPrototype t | wrapper t | fulfilled t | rejected t =>
    simp [toJson, Json.normal, normalFields, setField, Tagged.normal_toJson (h t (by simp [values]))]
  | bytes t =>
    simp [toJson, Json.normal, normalFields, setField, Json.ofNat,
      Tagged.normal_toJson (h t (by simp [values]))]
  | member t expression detached =>
    cases detached <;> simp [toJson, Json.normal, normalFields, setField,
      Tagged.normal_toJson (h t (by simp [values]))]
  | source captures text =>
    have hcaptures : ∀ j ∈ captures.map fun c => Json.object [("name", .text c.1),
        ("value", c.2.toJson)], j.normal = j := by
      refine List.forall_mem_map.mpr fun c hc => ?_
      simp [Json.normal, normalFields, setField,
        Tagged.normal_toJson (h c.2 (List.mem_map_of_mem hc))]
    simp [toJson, Json.normal, normalFields, setField, normalItems_eq hcaptures]
  | map entries =>
    have hentries : ∀ j ∈ entries.map fun q => Json.array [q.1.toJson, q.2.toJson], j.normal = j := by
      refine List.forall_mem_map.mpr fun q hq => ?_
      have hkey := Tagged.normal_toJson (h q.1 (List.mem_flatMap.mpr ⟨q, hq, by simp⟩))
      have hvalue := Tagged.normal_toJson (h q.2 (List.mem_flatMap.mpr ⟨q, hq, by simp⟩))
      simp [Json.normal, normalItems, hkey, hvalue]
    simp [toJson, Json.normal, normalFields, setField, normalItems_eq hentries]
  | set elements =>
    have helements : ∀ j ∈ elements.map Tagged.toJson, j.normal = j :=
      List.forall_mem_map.mpr fun t ht => Tagged.normal_toJson (h t ht)
    simp [toJson, Json.normal, normalFields, setField, normalItems_eq helements]

/-! ## Reading -/

theorem mapM_map_eq_some {α β : Type} {encode : α → β} {decode : β → Option α} {l : List α}
    (h : ∀ a ∈ l, decode (encode a) = some a) : (l.map encode).mapM decode = some l := by
  induction l with
  | nil => rfl
  | cons a l ih =>
    obtain ⟨ha, hl⟩ := List.forall_mem_cons.mp h
    rw [List.map_cons, List.mapM_cons, ha, ih hl]
    rfl

/-- Known fields that are given once are all taken. -/
theorem knownFields_eq {α : Type} {names : List String} {fields : Fields α}
    (hknown : ∀ f ∈ fields, f.1 ∈ names) (hnodup : (fields.map Prod.fst).Nodup) :
    knownFields names fields = some fields := by
  induction fields with
  | nil => rfl
  | cons f fields ih =>
    obtain ⟨hf, hfields⟩ := List.forall_mem_cons.mp hknown
    obtain ⟨hnew, hnodup⟩ := List.nodup_cons.mp hnodup
    have hlookup : fields.lookup f.1 = none := by
      refine List.lookup_eq_none_iff.mpr fun g hg => bne_iff_ne.mpr fun he => ?_
      exact hnew (List.mem_map.mpr ⟨g, hg, he.symm⟩)
    rw [knownFields, ih hfields hnodup]
    simp [hf, hlookup]

/-- A field that may be missing is read back. -/
theorem optional?_eq {α : Type} {fields : Fields Json} {name : String} {encode : α → Json}
    {decode : Json → Option α} {o : Option α} (hlookup : fields.lookup name = o.map encode)
    (hread : ∀ a ∈ o, decode (encode a) = some a) (hnull : ∀ a, encode a ≠ .null) :
    optional? fields name decode = some o := by
  unfold optional?
  rw [hlookup]
  cases o with
  | none => rfl
  | some a =>
    rw [Option.map_some]
    split
    · next h => cases h
    · next h => exact absurd (Option.some.inj h) (hnull a)
    · next j _ h => rw [← Option.some.inj h, hread a rfl, Option.map_some]

/-- The fields with which a property is written. -/
def Slot.fields (s : Slot) : Fields Json :=
  s.value.toList.map (fun t => ("value", t.toJson)) ++ s.get.toList.map (fun t => ("get", t.toJson))
    ++ s.set.toList.map (fun t => ("set", t.toJson))
    ++ s.writable.toList.map (fun b => ("writable", Json.bool b))
    ++ s.enumerable.toList.map (fun b => ("enumerable", Json.bool b))
    ++ s.configurable.toList.map (fun b => ("configurable", Json.bool b))

namespace Slot

theorem toJson_eq (s : Slot) : s.toJson = .object s.fields := rfl

/-- The fields stand in their order, and some may be missing. -/
theorem fields_sublist (s : Slot) : (s.fields.map Prod.fst).Sublist fieldNames := by
  have hpart : ∀ {α : Type} (o : Option α) (name : String) (encode : α → Json),
      ((o.toList.map fun a => (name, encode a)).map Prod.fst).Sublist [name] := by
    intro α o name encode
    cases o with
    | none => exact List.nil_sublist _
    | some a => exact List.Sublist.refl _
  unfold fields
  simp only [List.map_append]
  exact (((((hpart _ _ _).append (hpart _ _ _)).append (hpart _ _ _)).append (hpart _ _ _)).append
    (hpart _ _ _)).append (hpart _ _ _)

theorem knownFields_fields (s : Slot) : knownFields fieldNames s.fields = some s.fields :=
  knownFields_eq (fun _ hf => s.fields_sublist.subset (List.mem_map_of_mem hf))
    (s.fields_sublist.nodup (by decide))

/-- **A property with flat values reads back.** -/
theorem ofJson?_toJson {s : Slot} (h : ∀ t ∈ s.values, t.IsFlat) : ofJson? s.toJson = some s := by
  have hpart : ∀ {α : Type} (o : Option α) (name name' : String) (encode : α → Json),
      (o.toList.map fun a => (name, encode a)).lookup name' =
        if name' = name then o.map encode else none := by
    intro α o name name' encode
    cases o with
    | none => simp
    | some a =>
      by_cases he : name' = name
      · simp [he]
      · simp [List.lookup, he, beq_eq_false_iff_ne.mpr he]
  have htagged : ∀ o : Option Tagged, o.toList ⊆ s.values → ∀ t ∈ o, Tagged.ofJson? t.toJson = some t :=
    fun o ho t ht => Tagged.ofJson?_toJson (h t (ho (Option.mem_toList.mpr ht)))
  have hnull : ∀ t : Tagged, t.toJson ≠ .null := by
    intro t
    cases t <;> exact Json.noConfusion
  have hvalue : optional? s.fields "value" Tagged.ofJson? = some s.value :=
    optional?_eq (by simp [fields, List.lookup_append, hpart])
      (htagged s.value (by simp [values])) hnull
  have hget : optional? s.fields "get" Tagged.ofJson? = some s.get :=
    optional?_eq (by simp [fields, List.lookup_append, hpart])
      (htagged s.get (by simp [values])) hnull
  have hset : optional? s.fields "set" Tagged.ofJson? = some s.set :=
    optional?_eq (by simp [fields, List.lookup_append, hpart])
      (htagged s.set (by simp [values])) hnull
  have hflag : ∀ {o : Option Bool} {name : String}, s.fields.lookup name = o.map Json.bool →
      optional? s.fields name Json.bool? = some o :=
    fun hlookup => optional?_eq hlookup (fun _ _ => rfl) fun _ => Json.noConfusion
  have hwritable : optional? s.fields "writable" Json.bool? = some s.writable :=
    hflag (by simp [fields, List.lookup_append, hpart])
  have henumerable : optional? s.fields "enumerable" Json.bool? = some s.enumerable :=
    hflag (by simp [fields, List.lookup_append, hpart])
  have hconfigurable : optional? s.fields "configurable" Json.bool? = some s.configurable :=
    hflag (by simp [fields, List.lookup_append, hpart])
  rw [toJson_eq]
  simp [ofJson?, Fields.ofJson, knownFields_fields, hvalue, hget, hset, hwritable, henumerable,
    hconfigurable]

end Slot

theorem Entry.IsFormed.property {e : Entry} (h : e.IsFormed) {q : Tagged × Slot}
    (hq : q ∈ e.properties) : q.1.IsFlat ∧ ∀ t ∈ q.2.values, t.IsFlat := by
  have hmem : ∀ t ∈ q.1 :: q.2.values, t ∈ e.values := fun t ht =>
    List.mem_cons_of_mem _ (List.mem_flatMap.mpr ⟨q, hq, ht⟩)
  exact ⟨h.values _ (hmem _ List.mem_cons_self),
    fun t ht => h.values t (hmem t (List.mem_cons_of_mem _ ht))⟩

theorem Entry.IsFormed.normal {e : Entry} (h : e.IsFormed) : e.payload.normal = e.payload := by
  obtain hnull | ⟨p, hp, hflat⟩ := h.payload
  · rw [hnull]
    rfl
  · rw [hp, Payload.normal_toJson hflat]

/-- **A formed entry reads back.** -/
theorem Entry.ofJson?_toJson {e : Entry} (h : e.IsFormed) : Entry.ofJson? e.toJson = some e := by
  have hprototype := Tagged.ofJson?_toJson (h.values _ List.mem_cons_self)
  have hproperties : (e.properties.map fun q => Json.array [q.1.toJson, q.2.toJson]).mapM
      (Json.pair? Tagged.ofJson? Slot.ofJson?) = some e.properties := by
    refine mapM_map_eq_some fun q hq => ?_
    obtain ⟨hkey, hslot⟩ := h.property hq
    simp [Json.pair?, Tagged.ofJson?_toJson hkey, Slot.ofJson?_toJson hslot]
  simp [Entry.ofJson?, Entry.toJson, Fields.ofJson, Entry.fieldNames, knownFields, required?,
    List.lookup, Json.text?, Json.bool?, Json.list?, -List.mapM_map, hprototype, hproperties, h.normal]

/-- **A formed envelope reads back**, with its entries in their order. -/
theorem Envelope.ofJson?_toJson {e : Envelope} (h : e.IsFormed) : ofJson? e.toJson = some e := by
  have hentries : (e.entries.entries.map fun q => (q.1, q.2.toJson)).mapM
      (fun q => do return (q.1, ← Entry.ofJson? q.2)) = some e.entries.entries :=
    mapM_map_eq_some fun q hq => by simp [Entry.ofJson?_toJson (h.entry q hq)]
  have htable : Table.ofList e.entries.entries = e.entries :=
    Table.ext_entries (Table.entries_ofList e.entries.nodup)
  have hroot := Tagged.ofJson?_toJson h.root
  have htableOf : entriesOf? (.object (e.entries.entries.map fun q => (q.1, q.2.toJson)))
      = some e.entries := by
    show ((e.entries.entries.map fun q => (q.1, q.2.toJson)).mapM
      (fun q => do return (q.1, ← Entry.ofJson? q.2)) >>= fun l => some (Table.ofList l)) = _
    rw [hentries, Option.bind_eq_bind, Option.bind_some, htable]
  simp [ofJson?, toJson, Fields.ofJson, knownFields, required?, List.lookup, htableOf, hroot]

/-! ## What a walk answers -/

variable {α β γ : Type}

/-- Wherever the walk begins, its answer is one of these. -/
def Answers (x : Walk α) (Q : α → Prop) : Prop :=
  ∀ r p a r' p', WalkYields x r p a r' p' → Q a

section Answers

variable {x : Walk α} {f : α → Walk β} {y : Run α} {P : α → Prop} {Q : β → Prop}

theorem Answers.pure {a : α} (h : P a) : Answers (Pure.pure a) P := by
  rintro r p _ _ _ ⟨⟩
  exact h

theorem Answers.bind (hx : Answers x P) (hf : ∀ a, P a → Answers (f a) Q) : Answers (x >>= f) Q := by
  intro r p b r' p' hy
  obtain ⟨a, r₁, p₁, ha, hb⟩ := walkYields_bind_iff.mp hy
  exact hf a (hx r p a r₁ p₁ ha) r₁ p₁ b r' p' hb

/-- Any answer leads to such an answer. -/
theorem Answers.after (hf : ∀ a, Answers (f a) Q) : Answers (x >>= f) Q :=
  Answers.bind (P := fun _ => True) (fun _ _ _ _ _ _ => trivial) fun a _ => hf a

theorem Answers.lift (hy : ∀ r a r', Yields y r a r' → P a) : Answers (liftM y) P := by
  intro r p a r' p' h
  obtain ⟨a', r₁, hrun, hpure⟩ := yields_bind_iff.mp h
  cases hpure
  exact hy r a r' hrun

theorem answers_raise (cause : EngineError) : Answers (liftM (raise cause : Run α)) P := by
  rintro r p a r' p' ⟨⟩

theorem answers_mapM {g : γ → Walk β} (hg : ∀ c, Answers (g c) Q) (l : List γ) :
    Answers (l.mapM g) fun bs => ∀ b ∈ bs, Q b := by
  induction l with
  | nil => exact Answers.pure nofun
  | cons c l ih =>
    rw [List.mapM_cons]
    exact (hg c).bind fun b hb => ih.bind fun bs hbs =>
      Answers.pure (List.forall_mem_cons.mpr ⟨hb, hbs⟩)

end Answers

/-! ## What is written is flat -/

theorem Tagged.IsPlain.isFlat {t : Tagged} (h : t.IsPlain) : t.IsFlat := h.1.isFlat

/-- A symbol is written by its key or its reference. -/
theorem answers_taggedSymbol (id : SymbolId) : Answers (liftM (taggedSymbol id)) Tagged.IsFlat := by
  refine Answers.lift fun r t r' hy => ?_
  unfold taggedSymbol at hy
  obtain ⟨r₁, r₂, hget, hrest⟩ := yields_bind_iff.mp hy
  cases hget
  split at hrest <;> cases hrest <;> trivial

theorem answers_taggedKey (key : Key) : Answers (liftM (taggedKey key)) Tagged.IsFlat := by
  cases key with
  | text s =>
    rintro r p _ _ _ ⟨⟩
    trivial
  | symbol id => exact answers_taggedSymbol id

section Machine

variable [Machine]

/-- An object is written as its path, as nothing or as its entry. -/
theorem answers_suspendObject (id : ObjectId) (path : Option String) :
    Answers (suspendObject id path) Tagged.IsFlat := by
  unfold suspendObject
  refine Answers.after fun r => ?_
  split
  · exact Answers.pure trivial
  · refine Answers.after fun p => Answers.after fun kind => ?_
    extract_lets refer
    have hrefer : ∀ u, Answers (refer u) Tagged.IsFlat := fun u =>
      Answers.after fun reference => Answers.after fun p' => by
        dsimp only
        split
        · exact Answers.after fun _ => Answers.after fun _ => Answers.after fun _ => Answers.pure trivial
        · exact Answers.pure trivial
    clear_value refer
    split
    · exact Answers.pure trivial
    · cases path with
      | some path => exact Answers.after hrefer
      | none => exact hrefer ()

theorem answers_taggedValue (v : Value) (path : Option String) :
    Answers (taggedValue v path) Tagged.IsFlat := by
  unfold taggedValue
  cases v with
  | number x => exact Answers.pure (isPlain_taggedNumber x).isFlat
  | symbol id => exact answers_taggedSymbol id
  | object id => exact answers_suspendObject id path
  | _ => exact Answers.pure trivial

end Machine

/-- A machine whose walks write flat values. -/
class FlatMachine [Machine] : Prop where
  flat : ∀ (p : Pass) (v : Value) (path : Option String) (r : Realm) (t : Tagged) (p' : Pass)
    (r' : Realm), Yields (suspendAt p v path) r (t, p') r' → t.IsFlat

/-- **Whatever the engine writes is flat.** -/
instance flatMachine_engine (depth : ℕ) : @FlatMachine (engine depth) := by
  cases depth with
  | zero => exact @FlatMachine.mk (engine 0) fun _ _ _ _ _ _ _ h => nomatch h
  | succ depth =>
    exact @FlatMachine.mk (engine (depth + 1)) fun p v path r t p' r' h =>
      @answers_taggedValue (engine depth) v path r p t r' p' h

/-! ## What is written is formed -/

section Machine

variable [Machine] [FlatMachine]

theorem answers_child (v : Value) (parent : Option String) (step : PathStep) :
    Answers (child v parent step) Tagged.IsFlat := by
  unfold child
  refine Answers.after fun p => ?_
  dsimp only
  split
  · exact Answers.pure trivial
  · intro r p₁ t r' p' hy
    obtain ⟨⟨t', p₂⟩, r₁, p₃, hlift, hset⟩ := walkYields_bind_iff.mp hy
    obtain ⟨_, r₂, hsuspend, hpure⟩ := yields_bind_iff.mp hlift
    cases hpure
    cases hset
    exact FlatMachine.flat _ _ _ _ _ _ _ hsuspend

theorem answers_slotOf (key : Key) (d : Descriptor) (path : Option String) :
    Answers (slotOf key d path) fun s => ∀ t ∈ s.values, t.IsFlat := by
  unfold slotOf
  refine Answers.after fun r => ?_
  cases d with
  | data v w e c =>
    exact (answers_child v path _).bind fun value hvalue => Answers.pure (by simpa [Slot.values])
  | accessor g s e c =>
    refine (answers_child _ path _).bind fun get hget => (answers_child _ path _).bind fun set hset => ?_
    exact Answers.pure (by simp [Slot.values, hget, hset])

theorem answers_functionPayload (id : ObjectId) (path : Option String) :
    Answers (functionPayload id path) fun p => ∀ t ∈ p.values, t.IsFlat := by
  unfold functionPayload
  refine Answers.after fun r => ?_
  split
  · refine Answers.after fun captured => ?_
    have hcapture : ∀ c : String × Value, Answers (do
        return (c.1, ← child c.2 path .unknown) : Walk (String × Tagged)) fun b => b.2.IsFlat :=
      fun c => (answers_child c.2 path .unknown).bind fun t ht => Answers.pure ht
    refine (answers_mapM hcapture captured).bind fun captures hcaptures => Answers.pure ?_
    exact List.forall_mem_map.mpr hcaptures
  · refine Answers.after fun current => ?_
    exact (answers_child _ path _).bind fun t ht => Answers.pure (List.forall_mem_singleton.mpr ht)
  · refine Answers.after fun r' => ?_
    split
    · exact Answers.pure nofun
    · exact Answers.after fun reference => Answers.after fun text => answers_raise _

/-- **The values in a payload are flat.** -/
theorem answers_payloadOf (type : ObjectType) (id : ObjectId) (path : Option String) :
    Answers (payloadOf type id path) fun p => ∀ t ∈ p.values, t.IsFlat := by
  have hone : ∀ (make : Tagged → Payload) (v : Value) (step : PathStep), (∀ t, (make t).values = [t]) →
      Answers (do return make (← child v path step)) fun p => ∀ t ∈ p.values, t.IsFlat :=
    fun make v step hmake => (answers_child v path step).bind fun t ht =>
      Answers.pure (by simpa [hmake] using ht)
  unfold payloadOf
  refine Answers.after fun kind => ?_
  split
  · exact Answers.after fun r => hone _ _ _ fun _ => rfl
  · exact answers_functionPayload id path
  · next entries =>
    have hentry : ∀ c : CollectionKey × Value, Answers (do
        let key ← child c.1.toValue path .unknown
        let value ← child c.2 path .unknown
        return (key, value)) fun q : Tagged × Tagged => q.1.IsFlat ∧ q.2.IsFlat :=
      fun c => (answers_child _ path _).bind fun key hkey => (answers_child _ path _).bind fun value hv =>
        Answers.pure ⟨hkey, hv⟩
    refine (answers_mapM hentry entries.entries).bind fun written hwritten => Answers.pure fun t ht => ?_
    obtain ⟨q, hq, ht⟩ := List.mem_flatMap.mp ht
    obtain ⟨hkey, hvalue⟩ := hwritten q hq
    obtain rfl | rfl : t = q.1 ∨ t = q.2 := by simpa using ht
    · exact hkey
    · exact hvalue
  · next elements =>
    have helement : ∀ c : CollectionKey × ℕ,
        Answers (child c.1.toValue path (.setElement c.2)) Tagged.IsFlat :=
      fun c => answers_child _ path _
    exact (answers_mapM helement _).bind fun written hwritten => Answers.pure hwritten
  · exact hone _ _ _ fun _ => rfl
  · exact Answers.pure nofun
  · exact Answers.after fun message => Answers.after fun name => Answers.after fun stack =>
      Answers.pure nofun
  · exact Answers.pure nofun
  · exact hone _ _ _ fun _ => rfl
  · exact hone _ _ _ fun _ => rfl
  · exact Answers.pure nofun
  · exact Answers.pure nofun
  · exact hone (Payload.bytes · _ _) _ _ fun _ => rfl
  · exact Answers.pure nofun

/-- **The entry of an object is formed.** -/
theorem answers_entryOf (id : ObjectId) (reference : String) (path : Option String) :
    Answers (entryOf id reference path) Entry.IsFormed := by
  unfold entryOf
  refine Answers.after fun o => Answers.after fun r => ?_
  extract_lets types type kept rest
  have hrest : ∀ u, Answers (rest u) Entry.IsFormed := by
    intro u
    have hproperty : ∀ c : Key × Descriptor, Answers (do
        let tagged ← taggedKey c.1
        return (tagged, ← slotOf c.1 c.2 path))
        fun q : Tagged × Slot => q.1.IsFlat ∧ ∀ t ∈ q.2.values, t.IsFlat :=
      fun c => (answers_taggedKey c.1).bind fun tagged htagged =>
        (answers_slotOf c.1 c.2 path).bind fun slot hslot => Answers.pure ⟨htagged, hslot⟩
    refine (answers_mapM hproperty kept).bind fun properties hproperties => ?_
    refine Answers.after fun o' => (answers_child _ path _).bind fun prototype hprototype => ?_
    extract_lets finish
    have hfinish : ∀ (objectType : String) (payload : Json), (payload = .null ∨ ∃ p : Payload,
        payload = p.toJson ∧ ∀ t ∈ p.values, t.IsFlat) →
          Answers (finish (objectType, payload)) Entry.IsFormed := by
      intro objectType payload hpayload
      refine Answers.after fun o'' => Answers.pure ⟨List.forall_mem_cons.mpr ⟨hprototype, ?_⟩, hpayload⟩
      intro t ht
      obtain ⟨q, hq, ht⟩ := List.mem_flatMap.mp ht
      obtain ⟨hkey, hslot⟩ := hproperties q hq
      rcases List.mem_cons.mp ht with rfl | ht
      · exact hkey
      · exact hslot t ht
    clear_value finish type
    cases type with
    | some t =>
      refine (answers_payloadOf t id path).bind fun payload hpayload => ?_
      rw [pure_bind]
      exact hfinish _ _ (.inr ⟨payload, rfl, hpayload⟩)
    | none => exact hfinish _ _ (.inl rfl)
  split
  · exact Answers.after fun _ => hrest ()
  · exact hrest ()

end Machine

theorem Entry.IsFor.isFormed {entry : Entry} {id : ObjectId} {reference : String}
    (h : entry.IsFor id reference) : entry.IsFormed := by
  obtain ⟨depth, path, r, p, r', p', -, hy⟩ := h
  exact @answers_entryOf (engine depth) (flatMachine_engine depth) id reference path r p entry r' p' hy

/-- **What `serialize` writes is formed**, under references that the realm has counted. -/
theorem Yields.isFormed {depth : ℕ} {v : Value} {options : SuspendOptions} {e : Envelope} {r r' : Realm}
    (hsound : r.references.Sound) (hknown : options.known = {})
    (h : Yields (@serialize (engine depth) v options) r e r') :
    e.IsFormed ∧ ∀ reference ∈ e.entries.keys, ∃ n, reference = referenceOf n := by
  let _ : Machine := engine depth
  obtain ⟨r₁, hwalk, events, rfl⟩ := h.of_serialize
  obtain ⟨p, hsuspend, hentries⟩ := hwalk.of_walkFrom
  have hfilled : Filled r { entries := ({} : Table String Entry).map some, stop := options.stop } r₁ p :=
    hknown ▸ FillingMachine.fills _ v _ r _ p r₁ hsound hsuspend
  have hfor : ∀ reference entry, e.entries.find? reference = some entry →
      ∃ id, r₁.references.objects.find? id = some reference ∧ entry.IsFor id reference :=
    fun _ _ hfound => hfilled.isFor hentries List.not_mem_nil hfound
  refine ⟨⟨(flatMachine_engine depth).flat _ _ _ _ _ _ _ hsuspend, fun q hq => ?_⟩, fun reference hmem => ?_⟩
  · obtain ⟨id, -, hentry⟩ := hfor q.1 q.2 (Table.find?_eq_some_iff.mpr hq)
    exact hentry.isFormed
  · obtain ⟨entry, hfound⟩ := Table.mem_keys_iff.mp hmem
    obtain ⟨id, hid, -⟩ := hfor reference entry hfound
    obtain ⟨n, -, hn⟩ := hfilled.goesOn.sound.given id reference hid
    exact ⟨n, hn⟩

end Stasis
