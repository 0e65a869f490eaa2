import Mathlib
import Stasis.Proofs.Given
import Stasis.Proofs.Suspended

/-!
# Walks that are made again

A walk through an inert graph reads its objects, gives references, and does nothing else. Once the
references have been given, the same walk gives no more of them, and comes to the same answer, with
entries in the same order, wherever the graph is what it was.

* `Realm.Mirrors`: a realm in which the graph of a value is what it is in another realm.
* `Repeats`: a walk that can be made again.
* `repeats_suspend`: the walk from a value through an inert graph.
* `Yields.walkFrom_again`: the envelope of a value is written again.
-/

namespace Stasis

namespace Realm

/-- The symbol is the same in both realms. -/
def AgreesOn (r r' : Realm) (id : SymbolId) : Prop :=
  r'.symbols.keyFor? id = r.symbols.keyFor? id ∧
    r'.symbols.description? id = r.symbols.description? id

/-- The graph of the value is in the second realm what it is in the first one. -/
structure Mirrors (r : Realm) (v : Value) (r' : Realm) : Prop where
  objects : ∀ id o, r.store.get id = .ok o → r'.store.get id = .ok o
  symbols : ∀ id, r.Holds v (.symbol id) → r.AgreesOn r' id
  keys : ∀ id o s, r.Inner v id → r.store.get id = .ok o → Key.symbol s ∈ o.properties.keys →
    r.AgreesOn r' s
  hostPaths : r'.hostPaths = r.hostPaths
  registry : r'.registry = r.registry
  types : r'.objectTypes = r.objectTypes

end Realm

variable {α β γ : Type} {r r' r'' : Realm} {v w : Value} {ρ : References}

/-! ## Walks that repeat -/

/-- Whenever the walk is made in the first realm, whatever references have been given there, it does
nothing but give references. Where these have been given, it is made in the second realm with the
same answer, and changes nothing. -/
def Repeats (r r' : Realm) (x : Walk α) : Prop :=
  ∀ ρ p a r₁ p', ρ.Sound → WalkYields x (r.giving ρ) p a r₁ p' →
    ∃ ρ', r₁ = r.giving ρ' ∧ ρ.GoesOn ρ' ∧ (ρ'.Le r'.references → WalkYields x r' p a r' p')

section Repeats

variable {x : Walk α} {f : α → Walk β} {y : Run α} {a : α}

theorem Repeats.pure (a : α) : Repeats r r' (Pure.pure a) := by
  rintro ρ p _ _ _ hρ ⟨⟩
  exact ⟨ρ, rfl, .refl hρ, fun _ => rfl⟩

theorem Repeats.bind (hx : Repeats r r' x) (hf : ∀ a, Repeats r r' (f a)) :
    Repeats r r' (x >>= f) := by
  intro ρ p b r₂ p₂ hρ hy
  obtain ⟨a, r₁, p₁, ha, hb⟩ := walkYields_bind_iff.mp hy
  obtain ⟨ρ₁, rfl, hgoes₁, hagain₁⟩ := hx ρ p a r₁ p₁ hρ ha
  obtain ⟨ρ₂, rfl, hgoes₂, hagain₂⟩ := hf a ρ₁ p₁ b r₂ p₂ hgoes₁.sound hb
  exact ⟨ρ₂, rfl, hgoes₁.trans hgoes₂, fun hle => (hagain₁ (hgoes₂.le.trans hle)).bind (hagain₂ hle)⟩

theorem repeats_get : Repeats r r' (get : Walk Pass) := by
  rintro ρ p _ _ _ hρ ⟨⟩
  exact ⟨ρ, rfl, .refl hρ, fun _ => rfl⟩

theorem repeats_modify (g : Pass → Pass) : Repeats r r' (modify g : Walk Unit) := by
  rintro ρ p _ _ _ hρ ⟨⟩
  exact ⟨ρ, rfl, .refl hρ, fun _ => rfl⟩

theorem repeats_mapM {g : γ → Walk α} {l : List γ} (hg : ∀ c ∈ l, Repeats r r' (g c)) :
    Repeats r r' (l.mapM g) := by
  induction l with
  | nil => exact Repeats.pure _
  | cons c l ih =>
    obtain ⟨hc, hl⟩ := List.forall_mem_cons.mp hg
    rw [List.mapM_cons]
    exact hc.bind fun _ => (ih hl).bind fun _ => Repeats.pure _

/-- An action in the realm that only gives references. -/
theorem Repeats.lift (hy : ∀ ρ a r₁, ρ.Sound → Yields y (r.giving ρ) a r₁ →
      ∃ ρ', r₁ = r.giving ρ' ∧ ρ.GoesOn ρ' ∧ (ρ'.Le r'.references → Yields y r' a r')) :
    Repeats r r' (liftM y) := by
  intro ρ p a r₁ p' hρ h
  obtain ⟨a', r₂, ha, hpure⟩ := yields_bind_iff.mp h
  cases hpure
  obtain ⟨ρ', hr₁, hgoes, hagain⟩ := hy ρ a r₁ hρ ha
  exact ⟨ρ', hr₁, hgoes, fun hle => (hagain hle).walk p⟩

/-- A walk after an action that reads the same in both realms. -/
theorem Repeats.after_read (hy : ∀ ρ, Yields y (r.giving ρ) a (r.giving ρ)) (hy' : Yields y r' a r')
    (hf : Repeats r r' (f a)) : Repeats r r' (liftM y >>= f) := by
  intro ρ p b r₂ p₂ hρ h
  obtain ⟨a', r₁, p₁, ha, hb⟩ := walkYields_bind_iff.mp h
  cases (((hy ρ).walk p).symm.trans ha)
  obtain ⟨ρ₂, hr₂, hgoes, hagain⟩ := hf ρ p b r₂ p₂ hρ hb
  exact ⟨ρ₂, hr₂, hgoes, fun hle => (hy'.walk p).bind (hagain hle)⟩

/-- What a walk does with the realm that it reads. -/
theorem Repeats.realm {g : Realm → Walk β} (hsame : ∀ ρ, g (r.giving ρ) = g r')
    (hg : Repeats r r' (g r')) : Repeats r r' ((liftM Stasis.realm : Walk Realm) >>= g) := by
  intro ρ p b r₂ p₂ hρ h
  obtain ⟨a', r₁, p₁, ha, hb⟩ := walkYields_bind_iff.mp h
  cases ha
  rw [hsame ρ] at hb
  obtain ⟨ρ₂, hr₂, hgoes, hagain⟩ := hg ρ p b r₂ p₂ hρ hb
  exact ⟨ρ₂, hr₂, hgoes, fun hle => ((yields_realm r').walk p).bind (hagain hle)⟩

end Repeats

/-! ## References -/

/-- The reference of an object is given once. -/
theorem repeats_referenceFor (id : ObjectId) : Repeats r r' (liftM (referenceFor id)) := by
  refine Repeats.lift fun ρ a r₁ hρ h => ?_
  cases h
  refine ⟨(ρ.ofObject id).2, rfl, .ofObject hρ id, fun hle => ?_⟩
  have hgiven : r'.references.objects.find? id = some (ρ.ofObject id).1 :=
    hle.objects id _ (hρ.ofObject id).2.2
  have hsame : r'.references.ofObject id = ((ρ.ofObject id).1, r'.references) := by
    simp only [References.ofObject, hgiven]
  show (Except.ok (r'.references.ofObject id).1,
    { r' with references := (r'.references.ofObject id).2 }) = _
  rw [hsame]
  rfl

/-- The reference of a symbol is given once. -/
theorem repeats_taggedSymbol {id : SymbolId} (hid : r.AgreesOn r' id) :
    Repeats r r' (liftM (taggedSymbol id)) := by
  obtain ⟨hkey, hdescription⟩ := hid
  refine Repeats.lift fun ρ a r₁ hρ h => ?_
  unfold taggedSymbol at h ⊢
  obtain ⟨_, _, hget, h⟩ := yields_bind_iff.mp h
  cases hget
  rw [show (r.giving ρ).symbols = r.symbols from rfl] at h
  cases hk : r.symbols.keyFor? id with
  | some key =>
    rw [hk] at h hkey
    cases h
    refine ⟨ρ, rfl, .refl hρ, fun _ => (yields_get r').bind ?_⟩
    rw [hkey]
    exact Yields.pure _ r'
  | none =>
    rw [hk] at h hkey
    obtain ⟨_, _, hset, h⟩ := yields_bind_iff.mp h
    cases hset
    cases h
    refine ⟨(ρ.ofSymbol id).2, rfl, .ofSymbol hρ id, fun hle => (yields_get r').bind ?_⟩
    have hgiven : r'.references.symbols.find? id = some (ρ.ofSymbol id).1 :=
      hle.symbols id _ (hρ.ofSymbol id).2.2
    have hsame : r'.references.ofSymbol id = ((ρ.ofSymbol id).1, r'.references) := by
      simp only [References.ofSymbol, hgiven]
    rw [hkey, hsame]
    dsimp only
    rw [hdescription]
    exact (yields_set r' r').bind (Yields.pure _ r')

/-- A key of an object in the graph is written the same way. -/
theorem repeats_taggedKey {key : Key} (hkey : ∀ id, key = .symbol id → r.AgreesOn r' id) :
    Repeats r r' (liftM (taggedKey key)) := by
  cases key with
  | text s =>
    refine Repeats.lift fun ρ a r₁ hρ h => ?_
    cases h
    exact ⟨ρ, rfl, .refl hρ, fun _ => rfl⟩
  | symbol id => exact repeats_taggedSymbol (hkey id rfl)

/-! ## Objects -/

/-- What a walk through the graph meets: values of the graph, and what stands for one that is
missing. -/
def Realm.Meets (r : Realm) (v w : Value) : Prop := r.Holds v w ∨ w = .undefined ∨ w = .null

/-- A machine whose walks repeat. -/
def RepeatsAt [Machine] (r r' : Realm) (v : Value) : Prop :=
  ∀ w, r.Meets v w → Repeats r r' (fun p => suspendAt p w none)

section Parts

variable [Machine] {o : Object} {id : ObjectId} (hM : RepeatsAt r r' v)
include hM

theorem RepeatsAt.child (hw : r.Meets v w) (step : PathStep) : Repeats r r' (child w none step) := by
  refine repeats_get.bind fun p => ?_
  dsimp only
  split
  · exact Repeats.pure _
  · intro ρ p₁ a r₂ p₂ hρ h
    obtain ⟨⟨t, p₃⟩, r₁, p₄, hlift, hset⟩ := walkYields_bind_iff.mp h
    obtain ⟨_, r₃, hsuspend, hpure⟩ := yields_bind_iff.mp hlift
    cases hpure
    cases hset
    obtain ⟨ρ', rfl, hgoes, hagain⟩ := hM w hw ρ p _ _ _ hρ hsuspend
    refine ⟨ρ', rfl, hgoes, fun hle => ((hagain hle : Yields _ _ _ _).walk p₁).bind ?_⟩
    exact (walkYields_set r' p₁ p₃).bind (WalkYields.pure _ r' p₃)

theorem RepeatsAt.slotOf {d : Descriptor} (hd : ∀ w ∈ d.values, r.Holds v w) (key : Key) :
    Repeats r r' (slotOf key d none) := by
  cases d with
  | data u w e c =>
    have hu : r.Meets v u := .inl (hd u (by simp [Descriptor.values]))
    exact Repeats.realm (fun _ => rfl) ((hM.child hu _).bind fun _ => Repeats.pure _)
  | accessor g s e c =>
    have hhalf : ∀ f : Option ObjectId, f.toList ⊆ g.toList ++ s.toList →
        r.Meets v ((f.map Value.object).getD .undefined) := by
      intro f hf
      cases f with
      | none => exact .inr (.inl rfl)
      | some f => exact .inl (hd _ (List.mem_map_of_mem (hf (by simp))))
    refine Repeats.realm (fun _ => rfl) ?_
    exact (hM.child (hhalf g (by simp)) _).bind fun _ => (hM.child (hhalf s (by simp)) _).bind fun _ =>
      Repeats.pure _

theorem RepeatsAt.payloadOf (hm : r.Mirrors v r') {type : ObjectType} (hid : r.store.get id = .ok o)
    (ht : o.kind.type? = some type) (hinert : o.kind.IsInert)
    (hheld : ∀ w ∈ o.kind.values, r.Holds v w) : Repeats r r' (payloadOf type id none) := by
  have hone : ∀ (make : Tagged → Payload) (step : PathStep), ∀ w ∈ o.kind.values,
      Repeats r r' (do return make (← Stasis.child w none step)) :=
    fun make step w hw => (hM.child (.inl (hheld w hw)) step).bind fun _ => Repeats.pure _
  refine Repeats.after_read (fun ρ => yields_kindOf (r := r.giving ρ) hid)
    (yields_kindOf (hm.objects id o hid)) ?_
  cases hk : o.kind <;> simp only [hk, Kind.type?, Option.some.injEq, reduceCtorEq] at ht
    <;> subst ht <;> rw [hk] at hinert hone hheld
  case array => exact Repeats.pure _
  case function => exact hinert.elim
  case error => exact hinert.elim
  case regexp => exact Repeats.pure _
  case date => exact Repeats.pure _
  case buffer => exact Repeats.pure _
  case wrapper u => exact hone .wrapper _ u (by simp [Kind.values])
  case bytes viewed offset length =>
    exact hone (.bytes · offset length) _ (.object viewed) (by simp [Kind.values])
  case promise state =>
    cases state with
    | pending => exact Repeats.pure _
    | fulfilled u => exact hone .fulfilled _ u (by simp [Kind.values])
    | rejected u => exact hone .rejected _ u (by simp [Kind.values])
  case map entries =>
    refine (repeats_mapM fun q hq => ?_).bind fun _ => Repeats.pure _
    have hmem : ∀ w ∈ [q.1.toValue, q.2], r.Meets v w := fun w hw =>
      .inl (hheld w (List.mem_flatMap.mpr ⟨q, hq, hw⟩))
    exact (hM.child (hmem _ (by simp)) _).bind fun _ => (hM.child (hmem _ (by simp)) _).bind fun _ =>
      Repeats.pure _
  case set elements =>
    refine (repeats_mapM fun q hq => ?_).bind fun _ => Repeats.pure _
    have hmem := List.mem_of_getElem? (List.mem_zipIdx_iff_getElem?.mp hq)
    exact hM.child (.inl (hheld _ (List.mem_map_of_mem hmem))) _

/-- The entry of an object is written again. -/
theorem RepeatsAt.entryOf (hm : r.Mirrors v r') (hgraph : r.IsInertGraph v)
    (htypes : r.objectTypes = ObjectType.all) (hid : r.Inner v id) (ho : r.store.get id = .ok o)
    (reference : String) : Repeats r r' (entryOf id reference none) := by
  have hobject : ∀ ρ, Yields (objectAt id) (r.giving ρ) o (r.giving ρ) :=
    fun ρ => yields_objectAt (r := r.giving ρ) ho
  have hobject' : Yields (objectAt id) r' o r' := yields_objectAt (hm.objects id o ho)
  have hheld : ∀ w ∈ o.values, r.Holds v w := fun w hw => .step hid.1 hid.2 ho hw
  have hclass : r.registry.classOf? id = none := hgraph.classless id hid
  have htype : ∀ ρ, (r.giving ρ).objectTypes.filter ((r.giving ρ).typeClaims id o.kind)
      = o.kind.type?.toList := fun ρ => Realm.filter_typeClaims (r := r.giving ρ) htypes hclass
  have htype' : r'.objectTypes.filter (r'.typeClaims id o.kind) = o.kind.type?.toList :=
    Realm.filter_typeClaims (hm.types.trans htypes) (by rw [hm.registry, hclass])
  unfold Stasis.entryOf
  refine Repeats.after_read hobject hobject' (Repeats.realm (fun ρ => ?_) ?_)
  · simp only [htype, htype']
  have hlength : ¬ 1 < o.kind.type?.toList.length := by cases o.kind.type? <;> simp
  simp only [htype', if_neg hlength, Option.head?_toList]
  refine (repeats_mapM fun q hq => ?_).bind fun properties => Repeats.after_read hobject hobject' ?_
  · have hq' : q ∈ o.ownEntries := List.mem_of_mem_filter hq
    have hkey : ∀ s, q.1 = .symbol s → r.AgreesOn r' s := by
      intro s hs
      refine hm.keys id o s hid ho (Table.mem_keys_iff.mpr ⟨q.2, ?_⟩)
      rw [← hs]
      exact Object.mem_ownEntries_iff.mp hq'
    have hd : ∀ w ∈ q.2.values, r.Holds v w := fun w hw =>
      hheld w (Object.mem_values_iff.mpr (.inr (.inl ⟨q.1, q.2, hq', hw⟩)))
    exact (repeats_taggedKey hkey).bind fun _ => (hM.slotOf hd q.1).bind fun _ => Repeats.pure _
  · have hfinish : ∀ (objectType : String) (payload : Json) (prototype : Tagged), Repeats r r' (do
        let o ← liftM (objectAt id)
        return (⟨objectType, prototype, o.extensible, properties, payload⟩ : Entry)) :=
      fun _ _ _ => Repeats.after_read hobject hobject' (Repeats.pure _)
    have hvalues : ∀ w ∈ o.kind.values, r.Holds v w := fun w hw =>
      hheld w (Object.mem_values_iff.mpr (.inr (.inr hw)))
    refine (hM.child (show r.Meets v _ from ?_) _).bind fun prototype => ?_
    · cases hp : o.prototype with
      | none => exact .inr (.inr rfl)
      | some p => exact .inl (hheld _ (Object.mem_values_iff.mpr (.inl ⟨p, hp, rfl⟩)))
    cases ht : o.kind.type? with
    | none => exact hfinish plainType .null prototype
    | some type =>
      exact (hM.payloadOf hm ho ht (hgraph.inert id o hid ho) hvalues).bind fun payload =>
        hfinish type.name payload.toJson prototype

/-- An object of the graph is written again. -/
theorem RepeatsAt.suspendObject (hm : r.Mirrors v r') (hgraph : r.IsInertGraph v)
    (htypes : r.objectTypes = ObjectType.all) (hheld : r.Holds v (.object id)) :
    Repeats r r' (suspendObject id none) := by
  obtain ⟨o, ho⟩ := hgraph.found id hheld
  have hkind : ∀ ρ, Yields (kindOf id) (r.giving ρ) o.kind (r.giving ρ) :=
    fun ρ => yields_kindOf (r := r.giving ρ) ho
  have hkind' : Yields (kindOf id) r' o.kind r' := yields_kindOf (hm.objects id o ho)
  unfold Stasis.suspendObject
  refine Repeats.realm (fun ρ => ?_) ?_
  · rw [hm.hostPaths, show (r.giving ρ).hostPaths = r.hostPaths from rfl]
  rw [hm.hostPaths]
  cases hpath : r.hostPaths.pathOf? id with
  | some path => exact Repeats.pure _
  | none =>
    have hid : r.Inner v id := ⟨hheld, Realm.contains_of_pathOf? hpath⟩
    refine repeats_get.bind fun p => Repeats.after_read hkind hkind' ?_
    split
    · exact Repeats.pure _
    · refine (repeats_referenceFor id).bind fun reference => repeats_get.bind fun p' => ?_
      dsimp only
      split
      · refine (repeats_modify _).bind fun _ => ?_
        refine (hM.entryOf hm hgraph htypes hid ho reference).bind fun _ => ?_
        exact (repeats_modify _).bind fun _ => Repeats.pure _
      · exact Repeats.pure _

theorem RepeatsAt.taggedValue (hm : r.Mirrors v r') (hgraph : r.IsInertGraph v)
    (htypes : r.objectTypes = ObjectType.all) (hw : r.Meets v w) :
    Repeats r r' (taggedValue w none) := by
  cases w with
  | symbol id =>
    obtain hheld | ⟨⟨⟩⟩ | ⟨⟨⟩⟩ := hw
    exact repeats_taggedSymbol (hm.symbols id hheld)
  | object id =>
    obtain hheld | ⟨⟨⟩⟩ | ⟨⟨⟩⟩ := hw
    exact hM.suspendObject hm hgraph htypes hheld
  | _ => exact Repeats.pure _

end Parts

/-! ## Walks through an inert graph -/

/-- **A walk through an inert graph is made again**, however deep it goes. -/
theorem repeats_suspend (hm : r.Mirrors v r') (hgraph : r.IsInertGraph v)
    (htypes : r.objectTypes = ObjectType.all) (depth : ℕ) : @RepeatsAt (engine depth) r r' v := by
  induction depth with
  | zero => exact fun w _ ρ p a r₁ p' _ h => nomatch h
  | succ depth ih =>
    let _ : Machine := engine depth
    exact fun w hw ρ p => ih.taggedValue hm hgraph htypes hw ρ p

/-- **The envelope of a value is written again**: entry by entry, in the same order. -/
theorem Yields.walkFrom_again {depth : ℕ} {e : Envelope} (hm : r.Mirrors v r')
    (hgraph : r.IsInertGraph v) (htypes : r.objectTypes = ObjectType.all) (hρ : ρ.Sound)
    (h : Yields (@walkFrom (engine depth) {} false v none) (r.giving ρ) e r'') :
    ∃ ρ', r'' = r.giving ρ' ∧ ρ.GoesOn ρ' ∧
      (ρ'.Le r'.references → Yields (@walkFrom (engine depth) {} false v none) r' e r') := by
  let _ : Machine := engine depth
  obtain ⟨⟨root, p⟩, r₁, hsuspend, h⟩ := yields_bind_iff.mp h
  obtain ⟨entries, r₂, hentries, hpure⟩ := yields_bind_iff.mp h
  obtain ⟨hfinished, rfl⟩ := hentries.of_ofExcept
  cases hpure
  obtain ⟨ρ', rfl, hgoes, hagain⟩ :=
    repeats_suspend hm hgraph htypes depth v (.inl .self) ρ _ _ _ _ hρ hsuspend
  refine ⟨ρ', rfl, hgoes, fun hle => Yields.bind (hagain hle) ?_⟩
  dsimp only
  rw [hfinished]
  exact (yields_ofExcept entries r').bind (Yields.pure _ r')

end Stasis
