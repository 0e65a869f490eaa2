import Mathlib
import Stasis.Builtin.Registration
import Stasis.Proofs.Behaves.Engine
import Stasis.Proofs.Given
import Stasis.Proofs.Parsed
import Stasis.Proofs.Shown

/-!
# Envelopes in the hands of a script

A script gets an envelope as an object, and may give it back to the runtime. As long as the objects are
what they were made, the envelope that is read from them is the one that was written.

* `yields_arrayItems`, `yields_interchangeFields`: arrays and records are read.
* `yields_jsonOf`: the interchange value is read back from the objects that show it.
* `Envelope.hasNames_toJson`: no field of an envelope has an index for its name.
* `scriptForm_lossless`: from `serialize` to `deserialize` by way of a script.
-/

namespace Stasis

/-! ## Reading -/

/-- Answers that are given without a change, one for each item. -/
theorem yields_mapM {α β : Type} {f : α → Run β} {r : Realm} {bs : List β} {as : List α}
    (h : List.Forall₂ (fun b a => Yields (f a) r b r) bs as) : Yields (as.mapM f) r bs r := by
  induction h with
  | nil => exact Yields.pure _ r
  | cons hab _ ih =>
    rw [List.mapM_cons]
    exact hab.bind (ih.bind (Yields.pure _ r))

theorem exists_zip_of_forall₂ {α β : Type} {R : α → β → Prop} {l : List α} {l' : List β}
    (h : List.Forall₂ R l l') : ∀ a ∈ l, ∃ b, (a, b) ∈ l.zip l' ∧ R a b := by
  induction h with
  | nil => nofun
  | cons hab _ ih =>
    refine List.forall_mem_cons.mpr ⟨⟨_, List.mem_cons_self, hab⟩, fun a ha => ?_⟩
    obtain ⟨b, hb, hr⟩ := ih a ha
    exact ⟨b, List.mem_cons_of_mem _ hb, hr⟩

section Read

variable [Machine] {r : Realm} {id : ObjectId} {o : Object}

/-- An own property that holds a value is read, unless the object is a window on bytes. -/
theorem yields_getFrom_own {key : Key} {v : Value} {w e c : Bool} (hget : r.store.get id = .ok o)
    (hkind : key.arrayIndex? = none ∨ o.kind = .array) (hown : o.own? key = some (.data v w e c))
    (receiver : Value) : Yields (getFrom id key receiver) r v r := by
  have helement : r.element? id key = .ok none := by
    unfold Realm.element?
    cases hindex : key.arrayIndex? with
    | none => rfl
    | some index =>
      obtain hnone | harray := hkind
      · cases hindex.symm.trans hnone
      · simp only [hget, bind, Except.bind, harray]
        rfl
  have hlookup : r.store.lookup id key = .ok (some (id, .data v w e c)) := by
    unfold Store.lookup Store.lookupFrom
    simp only [hget, bind, Except.bind, hown]
    rfl
  have hread : Yields (ofRealm fun r => r.element? id key) r none r := by
    refine (yields_get r).bind ?_
    simp only [helement]
    exact Yields.pure _ r
  have hfound : Yields (ofStore fun s => s.lookup id key) r (some (id, .data v w e c)) r :=
    yields_ofStore hlookup
  exact hread.bind (hfound.bind (Yields.pure _ r))

/-- **The elements of an array are read**, if it is not too long for the realm. -/
theorem yields_arrayItems {values : List Value} (hget : r.store.get id = .ok o)
    (hlists : o.Lists values) (hlimit : values.length ≤ r.config.maxArrayLength)
    (hindices : values.length ≤ indexLimit) : Yields (arrayItems id) r values r := by
  have hlength : Yields (getOf id "length") r (.number (Number.ofInt values.length)) r :=
    yields_getFrom_own hget (.inr hlists.kind) hlists.length _
  have hsize : Yields (checkSize values.length "array length") r values.length r := by
    refine (yields_get r).bind ?_
    rw [if_neg (Nat.not_lt.mpr hlimit)]
    exact Yields.pure _ r
  have hitems : Yields ((List.range values.length).mapM fun i => getFrom id (.ofIndex i) (.object id)) r
      values r := by
    refine yields_mapM (List.forall₂_iff_get.mpr ⟨by simp, fun i hi _ => ?_⟩)
    simp only [List.get_eq_getElem, List.getElem_range]
    exact yields_getFrom_own hget (.inr hlists.kind)
      (hlists.element i _ (List.getElem?_eq_getElem hi)) _
  unfold arrayItems
  refine hlength.bind ?_
  have hnumber : Yields (toNumber (.number (Number.ofInt values.length))) r
      (Number.ofInt values.length) r := Yields.pure _ r
  refine hnumber.bind ?_
  rw [elementCount_ofInt hindices]
  exact hsize.bind hitems

/-- **The fields of a record are read**, in their order. -/
theorem yields_interchangeFields {seen : List ObjectId} {fields : List (String × Json)}
    {values : List Value} (hget : r.store.get id = .ok o)
    (hrecord : o.IsRecord ((fields.map Prod.fst).zip values))
    (hnames : ∀ f ∈ fields, (Key.text f.1).arrayIndex? = none)
    (hvalues : List.Forall₂ (fun f v => Yields (jsonOf v seen) r (some f.2) r) fields values) :
    Yields (interchangeFields id seen) r fields r := by
  have hzip : ∀ q ∈ (fields.map Prod.fst).zip values, (Key.text q.1).arrayIndex? = none := by
    intro q hq
    obtain ⟨f, hf, he⟩ := List.mem_map.mp (List.of_mem_zip hq).1
    rw [← he]
    exact hnames f hf
  have hlength : (fields.map Prod.fst).length ≤ values.length := by
    rw [List.length_map]
    exact hvalues.length_eq.le
  have hread : Yields ((fields.map Prod.fst).mapM fun name => do
      return (← jsonOf (← getOf id name) seen).map fun j => (name, j)) r (fields.map some) r := by
    refine yields_mapM (List.forall₂_map_left_iff.mpr (List.forall₂_map_right_iff.mpr
      (List.forall₂_same.mpr fun f hf => ?_)))
    obtain ⟨v, hzipped, hv⟩ := exists_zip_of_forall₂ hvalues f hf
    have hown : o.own? (.text f.1) = some (.plain v) := by
      refine hrecord.own? (f := (f.1, v)) ?_
      rw [List.zip_map_left]
      exact List.mem_map.mpr ⟨(f, v), hzipped, rfl⟩
    have hgetOf : Yields (getOf id f.1) r v r :=
      yields_getFrom_own hget (.inl (hnames f hf)) hown _
    exact hgetOf.bind (hv.bind (Yields.pure _ r))
  unfold interchangeFields
  refine (yields_objectAt hget).bind ?_
  dsimp only
  rw [hrecord.enumerableNames hzip, List.map_fst_zip hlength]
  refine hread.bind ?_
  rw [List.filterMap_map]
  simp only [Function.comp_def, List.filterMap_some]
  exact Yields.pure _ r

end Read

/-- **The interchange value is read back** from the objects that show it, and nothing changes. -/
theorem yields_jsonOf {r : Realm} {j : Json} (h : j.IsScriptable r.config.maxArrayLength) :
    ∀ {depth : ℕ} {lo hi : ObjectId} {v : Value} {seen : List ObjectId}, j.nesting < depth →
      r.store.Shows lo hi j v → (∀ id ∈ seen, id < lo ∨ hi ≤ id) →
        Yields (@jsonOf (engine depth) v seen) r (some j) r := by
  have hnew : ∀ {lo hi id : ObjectId} {seen : List ObjectId}, lo ≤ id → id < hi →
      (∀ x ∈ seen, x < lo ∨ hi ≤ x) → seen.contains id = false := by
    intro lo hi id seen hlo hhi hseen
    rw [List.contains_eq_mem, decide_eq_false_iff_not]
    intro hm
    exact (hseen id hm).elim (Nat.not_lt.mpr hlo) (Nat.not_le.mpr hhi)
  induction j using Json.ind with
  | array items ih =>
    rintro (_ | depth) lo hi v seen hdepth hshows hseen
    · cases hdepth
    obtain ⟨id, o, values, rfl, hlo, hhi, hget, hlists, hitems⟩ := hshows
    rw [showsItems_iff] at hitems
    obtain ⟨hlimit, hindices⟩ := h.lengths items List.mem_cons_self
    rw [hitems.length_eq] at hlimit hindices
    have hread : Yields (values.mapM fun item => @jsonOf (engine depth) item (id :: seen)) r
        (items.map some) r := by
      refine yields_mapM (List.forall₂_map_left_iff.mpr (forall₂_of_mem hitems fun j hj w hw => ?_))
      have hnesting := nestingOfItems_le.mp le_rfl j hj
      rw [Json.nesting] at hdepth
      exact ih j hj (h.item hj) (by omega) hw (List.forall_mem_cons.mpr
        ⟨.inr le_rfl, fun x hx => (hseen x hx).imp_right hhi.le.trans⟩)
    have helements := @yields_arrayItems (engine depth) r id o values hget hlists hlimit hindices
    show Yields (@interchangeForm (engine depth) (.object id) seen) r _ r
    unfold interchangeForm
    refine (yields_kindOf hget).bind ?_
    simp only [hlists.kind, hnew hlo hhi hseen, Bool.false_eq_true, if_false, Kind.isArray, if_true]
    refine helements.bind (hread.bind ?_)
    rw [List.map_map]
    simp only [Function.comp_def, Option.getD_some, List.map_id']
    exact Yields.pure _ r
  | object fields ih =>
    rintro (_ | depth) lo hi v seen hdepth hshows hseen
    · cases hdepth
    obtain ⟨id, o, values, rfl, hlo, hhi, hget, hrecord, hfields⟩ := hshows
    rw [showsFields_iff] at hfields
    have hvalues : List.Forall₂ (fun f w => Yields (@jsonOf (engine depth) w (id :: seen)) r
        (some f.2) r) fields values := by
      refine forall₂_of_mem hfields fun f hf w hw => ?_
      have hnesting := nestingOfFields_le.mp le_rfl f hf
      rw [Json.nesting] at hdepth
      exact ih f hf (h.field hf) (by omega) hw (List.forall_mem_cons.mpr
        ⟨.inl (Nat.lt_succ_self id), fun x hx => (hseen x hx).imp_left fun hlt =>
          hlt.trans (Nat.lt_succ_of_le hlo)⟩)
    have hread := @yields_interchangeFields (engine depth) r id o (id :: seen) fields values hget hrecord
      (h.names fields List.mem_cons_self).2 hvalues
    show Yields (@interchangeForm (engine depth) (.object id) seen) r _ r
    unfold interchangeForm
    refine (yields_kindOf hget).bind ?_
    simp only [hrecord.kind, hnew hlo hhi hseen, Bool.false_eq_true, if_false, Kind.isArray]
    exact hread.bind (Yields.pure _ r)
  | number n =>
    rintro (_ | depth) lo hi v seen hdepth rfl -
    · cases hdepth
    cases n with
    | double x => exact (h.numbers _ List.mem_cons_self).elim
    | int n =>
      have hexact : n.natAbs < 2 ^ 53 := h.numbers _ List.mem_cons_self
      show Yields (Pure.pure (some (jsonOfNumber (Number.ofInt n))) : Run (Option Json)) r _ r
      rw [jsonOfNumber_ofInt hexact]
      exact Yields.pure _ r
  | _ =>
    rintro (_ | depth) lo hi v seen hdepth rfl -
    · cases hdepth
    · exact Yields.pure _ r

/-! ## Names of fields -/

section Names

variable {items : List Json} {fields : List (String × Json)}

@[simp] theorem hasNames_array : (Json.array items).HasNames ↔ ∀ j ∈ items, j.HasNames := by
  refine ⟨fun h j hj fields hf => h fields (parts_subset_item hj hf), fun h fields hf => ?_⟩
  obtain hself | hinner := List.mem_cons.mp hf
  · cases hself
  · obtain ⟨j, hj, hf⟩ := mem_partsOfItems.mp hinner
    exact h j hj fields hf

@[simp] theorem hasNames_list {α : Type} {l : List α} {encode : α → Json} :
    (Json.array (l.map encode)).HasNames ↔ ∀ a ∈ l, (encode a).HasNames := by
  rw [hasNames_array, List.forall_mem_map]

@[simp] theorem hasNames_object : (Json.object fields).HasNames ↔ (fields.map Prod.fst).Nodup ∧
    ∀ f ∈ fields, (Key.text f.1).arrayIndex? = none ∧ f.2.HasNames := by
  refine ⟨fun h => ?_, fun ⟨hnodup, h⟩ fields' hf => ?_⟩
  · obtain ⟨hnodup, hnames⟩ := h fields List.mem_cons_self
    exact ⟨hnodup, fun f hf => ⟨hnames f hf, fun fields' hf' => h fields' (parts_subset_field hf hf')⟩⟩
  · obtain hself | hinner := List.mem_cons.mp hf
    · cases hself
      exact ⟨hnodup, fun f hf => (h f hf).1⟩
    · obtain ⟨f, hf, hinner⟩ := mem_partsOfFields.mp hinner
      exact (h f hf).2 fields' hinner

@[simp] theorem hasNames_null : Json.null.HasNames := by rintro fields (_ | ⟨_, ⟨⟩⟩)

@[simp] theorem hasNames_bool (b : Bool) : (Json.bool b).HasNames := by rintro fields (_ | ⟨_, ⟨⟩⟩)

@[simp] theorem hasNames_number (n : JsonNumber) : (Json.number n).HasNames := by
  rintro fields (_ | ⟨_, ⟨⟩⟩)

@[simp] theorem hasNames_text (s : String) : (Json.text s).HasNames := by rintro fields (_ | ⟨_, ⟨⟩⟩)

theorem hasNames_jsonOfNumber (x : Float) : (jsonOfNumber x).HasNames := by
  unfold jsonOfNumber
  split_ifs <;> simp

theorem Tagged.hasNames_toJson {t : Tagged} (h : t.IsFlat) : t.toJson.HasNames := by
  cases t with
  | simple j =>
    cases j with
    | array _ => exact h.elim
    | object _ => exact h.elim
    | _ => simp +decide [toJson]
  | ownSymbol reference description => cases description <;> simp +decide [toJson]
  | _ => simp +decide [toJson]

theorem Slot.hasNames_toJson {s : Slot} (h : ∀ t ∈ s.values, t.IsFlat) : s.toJson.HasNames := by
  rw [toJson_eq]
  refine hasNames_object.mpr ⟨s.fields_sublist.nodup (by decide), fun f hf => ⟨?_, ?_⟩⟩
  · have hnames : ∀ name ∈ fieldNames, (Key.text name).arrayIndex? = none := by decide
    exact hnames f.1 (s.fields_sublist.subset (List.mem_map_of_mem hf))
  · have htagged : ∀ (o : Option Tagged) (name : String), o.toList ⊆ s.values →
        f ∈ o.toList.map (fun t => (name, t.toJson)) → f.2.HasNames := by
      intro o name ho hf
      obtain ⟨t, ht, rfl⟩ := List.mem_map.mp hf
      exact Tagged.hasNames_toJson (h t (ho ht))
    have hflag : ∀ (o : Option Bool) (name : String),
        f ∈ o.toList.map (fun b => (name, Json.bool b)) → f.2.HasNames := by
      intro o name hf
      obtain ⟨b, -, rfl⟩ := List.mem_map.mp hf
      exact hasNames_bool b
    simp only [fields, List.mem_append] at hf
    obtain ((((hf | hf) | hf) | hf) | hf) | hf := hf
    · exact htagged s.value _ (by simp [values]) hf
    · exact htagged s.get _ (by simp [values]) hf
    · exact htagged s.set _ (by simp [values]) hf
    · exact hflag _ _ hf
    · exact hflag _ _ hf
    · exact hflag _ _ hf

theorem Payload.hasNames_toJson {p : Payload} (h : ∀ t ∈ p.values, t.IsFlat) :
    p.toJson.HasNames := by
  have hvalue : ∀ t ∈ p.values, t.toJson.HasNames := fun t ht => Tagged.hasNames_toJson (h t ht)
  cases p with
  | empty | pending | regexp | buffer => simp +decide [toJson, Json.ofNat]
  | error message name stack => cases stack <;> simp +decide [toJson]
  | date time => cases time <;> simp +decide [toJson, hasNames_jsonOfNumber]
  | classPrototype t | wrapper t | fulfilled t | rejected t | bytes t =>
    simp +decide [toJson, Json.ofNat, hvalue t (by simp [values])]
  | member t expression detached =>
    cases detached <;> simp +decide [toJson, hvalue t (by simp [values])]
  | source captures text =>
    have hcaptures : (Json.array (captures.map fun c => Json.object [("name", .text c.1),
        ("value", c.2.toJson)])).HasNames := hasNames_list.mpr fun c hc => by
      simp +decide [hvalue c.2 (List.mem_map_of_mem hc)]
    simpa +decide [toJson, -hasNames_array, -hasNames_list] using hcaptures
  | map entries =>
    have hentries : (Json.array (entries.map fun q => Json.array [q.1.toJson, q.2.toJson])).HasNames :=
      hasNames_list.mpr fun q hq => by
        have hkey := hvalue q.1 (List.mem_flatMap.mpr ⟨q, hq, by simp⟩)
        simp [hkey, hvalue q.2 (List.mem_flatMap.mpr ⟨q, hq, by simp⟩)]
    simpa +decide [toJson, -hasNames_array, -hasNames_list] using hentries
  | set elements =>
    simpa +decide [toJson, values] using hvalue

theorem Entry.hasNames_toJson {e : Entry} (h : e.IsFormed) : e.toJson.HasNames := by
  have hprototype := Tagged.hasNames_toJson (h.values _ List.mem_cons_self)
  have hproperties : (Json.array (e.properties.map fun q => Json.array [q.1.toJson, q.2.toJson])).HasNames :=
    hasNames_list.mpr fun q hq => by
      simp [Tagged.hasNames_toJson (h.property hq).1, Slot.hasNames_toJson (h.property hq).2]
  have hpayload : e.payload.HasNames := by
    obtain hnull | ⟨p, hp, hflat⟩ := h.payload
    · rw [hnull]
      exact hasNames_null
    · rw [hp]
      exact Payload.hasNames_toJson hflat
  simpa +decide [toJson, hprototype, hpayload, -hasNames_array, -hasNames_list] using hproperties

/-- The name of an entry is no index. -/
theorem arrayIndex?_referenceOf (n : ℕ) : (Key.text (referenceOf n)).arrayIndex? = none := by
  have hcs : (referenceOf n).toList = 'r' :: 'e' :: 'f' :: (toString n).toList := by
    simp [referenceOf]
  simp +decide [Key.arrayIndex?, hcs, isCanonicalIndex]

/-- **No field of an envelope has an index for its name.** -/
theorem Envelope.hasNames_toJson {e : Envelope} (h : e.IsFormed)
    (hkeys : ∀ reference ∈ e.entries.keys, ∃ n, reference = referenceOf n) : e.toJson.HasNames := by
  have hentries : (Json.object (e.entries.entries.map fun q => (q.1, q.2.toJson))).HasNames := by
    refine hasNames_object.mpr ⟨?_, List.forall_mem_map.mpr fun q hq => ⟨?_, ?_⟩⟩
    · rw [List.map_map]
      exact e.entries.nodup
    · obtain ⟨n, hn⟩ := hkeys q.1 (List.mem_map_of_mem hq)
      rw [hn]
      exact arrayIndex?_referenceOf n
    · exact Entry.hasNames_toJson (h.entry q hq)
  have hroot := Tagged.hasNames_toJson h.root
  refine hasNames_object.mpr ⟨by simp, ?_⟩
  simp only [List.forall_mem_cons, List.not_mem_nil, false_implies, implies_true, and_true]
  exact ⟨⟨by decide, hentries⟩, ⟨by decide, hroot⟩⟩

end Names

/-! ## Envelopes -/

/-- The objects that are numbered from `lo` on in one store are the same in another one. -/
def Store.Keeps (s' s : Store) (lo : ObjectId) : Prop :=
  ∀ id, lo ≤ id → id < s.size → s'.get id = s.get id

/-- The value is an envelope in the hands of a script: wherever its objects are as they are in this
store, and arrays are read up to the limit, it is read as the interchange value of the envelope, and the
runtime resumes it as the envelope. -/
structure Store.StandsFor (s : Store) (lo : ObjectId) (limit : ℕ) (w : Value) (e : Envelope) : Prop where
  decodes : Envelope.ofJson e.toJson = .ok e
  reads : ∀ (r : Realm) (depth : ℕ), 8 ≤ depth → limit ≤ r.config.maxArrayLength →
    r.store.Keeps s lo → Yields (@jsonOf (engine depth) w []) r (some e.toJson) r
  resumes : ∀ (r : Realm) (depth : ℕ), 8 ≤ depth → limit ≤ r.config.maxArrayLength →
    r.store.Keeps s lo → ∀ c : Invocation, c.arg 0 = w →
      r.run (@applyRuntime (engine depth) .deserialize c) = r.run (@deserialize (engine depth) e)

section Envelope

variable {e : Envelope} {limit : ℕ} {r₀ r₁ : Realm} {w : Value}

theorem Json.IsScriptable.mono {j : Json} {limit' : ℕ} (h : j.IsScriptable limit) (hle : limit ≤ limit') :
    j.IsScriptable limit' :=
  ⟨h.names, fun items hi => ⟨(h.lengths items hi).1.trans hle, (h.lengths items hi).2⟩, h.numbers⟩

/-- An envelope that is made into objects is one in the hands of a script. -/
theorem standsFor_of_yields (hformed : e.IsFormed) (hscript : e.toJson.IsScriptable limit)
    (hmade : Yields (valueOfJson e.toJson) r₀ w r₁) : r₁.store.StandsFor r₀.store.size limit w e := by
  have hdecodes : Envelope.ofJson e.toJson = .ok e := by
    rw [Envelope.ofJson, Envelope.ofJson?_toJson hformed]
  obtain ⟨w', s', hmade', -, hshows⟩ := yields_valueOfJson hscript r₀
  obtain ⟨hw, hr₁⟩ := Prod.mk.inj (hmade'.symm.trans hmade)
  cases hw
  subst hr₁
  have hreads : ∀ (r : Realm) (depth : ℕ), 8 ≤ depth → limit ≤ r.config.maxArrayLength →
      r.store.Keeps s' r₀.store.size → Yields (@jsonOf (engine depth) w []) r (some e.toJson) r := by
    intro r depth hdepth hlimit hkept
    have hflat := Envelope.nesting_toJson hformed
    exact yields_jsonOf (hscript.mono hlimit) (by omega) (hshows.mono le_rfl le_rfl hkept) nofun
  refine ⟨hdecodes, hreads, fun r depth hdepth hlimit hkept c hc => ?_⟩
  obtain ⟨id, -, -, rfl, -⟩ := hshows
  have hargument : Yields (@envelopeArgument (engine depth) (.object id)) r e r := by
    refine (hreads r depth hdepth hlimit hkept).bind ?_
    rw [Option.getD_some, hdecodes]
    exact yields_ofExcept e r
  show r.run (@envelopeArgument (engine depth) (c.arg 0) >>= @deserialize (engine depth)) = _
  rw [hc, run_bind, hargument]

/-- Scripts never give entries to go on with. -/
theorem known_of_suspendOptions [Machine] {options : Value} {o : SuspendOptions}
    (h : Yields (suspendOptions options) r₀ o r₁) : o.known = {} := by
  unfold suspendOptions at h
  split at h
  · cases h
    rfl
  · obtain ⟨path, r₂, -, h⟩ := yields_bind_iff.mp h
    extract_lets finish at h
    have hfinish : ∀ {p r}, Yields (finish p) r o r₁ → o.known = {} := by
      intro p r hp
      obtain ⟨stop, r₃, -, hp⟩ := yields_bind_iff.mp hp
      cases hp
      rfl
    clear_value finish
    split at h
    · exact hfinish h
    · exact hfinish h
    · obtain ⟨text, r₃, -, h⟩ := yields_bind_iff.mp h
      exact hfinish h

/-- **An envelope loses nothing in the hands of a script.** Let the numbers of an envelope be integers
below 2⁵³ in magnitude, and its lists no longer than the realm reads arrays. (That indices can number the
lists is asked besides. This is a matter of capacity, not of what is read: a realm has no array of more
elements, so there is no script that could be given such a list.) Then its interchange value becomes
objects in any realm, whatever its prototypes hold; as long as these objects are what they were made,
they are read as the same interchange value, which is the one of the envelope; and the runtime, called on
them, does what it does with the envelope itself. In particular so it is with what the runtime answers to
a script that lets it serialize a value. -/
theorem scriptForm_lossless {depth : ℕ} {r : Realm} (hsound : r.references.Sound) :
    (∀ v options e r', options.known = {} → Yields (@serialize (engine depth) v options) r e r' →
      e.toJson.HasLengths limit → e.toJson.HasExactNumbers →
        ∀ r₀ : Realm, ∃ w s, Yields (valueOfJson e.toJson) r₀ w { r₀ with store := s } ∧
          s.StandsFor r₀.store.size limit w e) ∧
    (∀ c w r₁, Yields (@applyRuntime (engine depth) .serialize c) r w r₁ →
      ∃ options e ra rb, Yields (@suspendOptions (engine depth) (c.arg 1)) r options ra ∧
        Yields (@serialize (engine depth) (c.arg 0) options) ra e rb ∧
        Yields (valueOfJson e.toJson) rb w r₁ ∧
        (e.toJson.HasLengths limit → e.toJson.HasExactNumbers →
          r₁.store.StandsFor rb.store.size limit w e)) := by
  let _ : Machine := engine depth
  have hscriptable : ∀ {v options e} {ra rb : Realm}, ra.references.Sound → options.known = {} →
      Yields (serialize v options) ra e rb → e.IsFormed ∧ (e.toJson.HasLengths limit →
        e.toJson.HasExactNumbers → e.toJson.IsScriptable limit) := by
    intro v options e ra rb hra hknown h
    obtain ⟨hformed, hkeys⟩ := h.isFormed hra hknown
    exact ⟨hformed, fun hlengths hnumbers => ⟨Envelope.hasNames_toJson hformed hkeys, hlengths, hnumbers⟩⟩
  refine ⟨fun v options e r' hknown h hlengths hnumbers r₀ => ?_, fun c w r₁ h => ?_⟩
  · obtain ⟨hformed, hscript⟩ := hscriptable hsound hknown h
    obtain ⟨w, s', hmade, -⟩ := yields_valueOfJson (hscript hlengths hnumbers) r₀
    exact ⟨w, _, hmade, standsFor_of_yields hformed (hscript hlengths hnumbers) hmade⟩
  · obtain ⟨options, ra, hoptions, h⟩ := yields_bind_iff.mp h
    obtain ⟨e, rb, hserialize, hmade⟩ := yields_bind_iff.mp h
    have hra : ra.references.Sound :=
      (((behaves_suspendOptions (c.arg 1)).steady []).goesOn hsound hoptions).sound
    obtain ⟨hformed, hscript⟩ := hscriptable hra (known_of_suspendOptions hoptions) hserialize
    exact ⟨options, e, ra, rb, hoptions, hserialize, hmade, fun hlengths hnumbers =>
      standsFor_of_yields hformed (hscript hlengths hnumbers) hmade⟩

/-- The envelope of one object of each kind comes back from a script that was given it. -/
theorem scriptForm_lossless_chest : ∃ e r' w s,
    Yields (@serialize (engine 12) (.object 0) {}) chestRealm e r' ∧
      Yields (valueOfJson e.toJson) chestRealm w { chestRealm with store := s } ∧
      ∀ c : Invocation, c.arg 0 = w →
        { chestRealm with store := s }.run (@applyRuntime (engine 8) .deserialize c)
          = { chestRealm with store := s }.run (@deserialize (engine 8) e) := by
  have hrun : ((chestRealm.run (@serialize (engine 12) (.object 0) {})).1.toOption.any
      fun e => e.toJson.HasLengths 100 && e.toJson.HasExactNumbers) = true := by decide +kernel
  obtain ⟨e, r', hy, hfits⟩ := exists_yields_of_any hrun
  obtain ⟨hlengths, hnumbers⟩ := Bool.and_eq_true_iff.mp hfits
  obtain ⟨w, s, hmade, hstands⟩ := (scriptForm_lossless References.sound_empty).1 (.object 0) {} e r'
    rfl hy (of_decide_eq_true hlengths) (of_decide_eq_true hnumbers) chestRealm
  have hlimit : 100 ≤ chestRealm.config.maxArrayLength := by decide
  exact ⟨e, r', w, s, hy, hmade, hstands.resumes _ 8 le_rfl hlimit fun _ _ _ => rfl⟩

end Envelope

end Stasis
