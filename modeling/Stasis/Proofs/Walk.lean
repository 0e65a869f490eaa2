import Mathlib
import Stasis.Proofs.Store
import Stasis.Proofs.Written

/-!
# Walks through data

A walk through a graph of data gives every object one entry, in a place that is taken before the
object is looked at. What has been written is never written anew, so a cycle is walked once.

* `Realm.WalkInv`: what holds of the pass of a walk at every moment.
* `Realm.Writes`: an action of a walk that writes what it is to write, however references are given
  on the way.
* `Realm.writes_suspend`: a value is written with everything that it refers to.
-/

namespace Stasis

/-- A pass has gone on: what had its place still has it, and no new place is left empty. -/
structure Pass.Le (p p' : Pass) : Prop where
  kept : ∀ reference x, p.entries.find? reference = some x → p'.entries.find? reference = some x
  finished : ∀ reference, p'.entries.find? reference = some none →
    p.entries.find? reference = some none

variable {r : Realm} {v w : Value} {ρ ρ' ρ'' : References} {p p' p'' : Pass}

theorem Pass.Le.refl (p : Pass) : p.Le p := ⟨fun _ _ h => h, fun _ h => h⟩

theorem Pass.Le.trans (h : p.Le p') (h' : p'.Le p'') : p.Le p'' where
  kept := fun reference x hx => h'.kept reference x (h.kept reference x hx)
  finished := fun reference hx => h.finished reference (h'.finished reference hx)

theorem Pass.Le.contains (h : p.Le p') (reference : String)
    (hc : p.entries.contains reference = true) : p'.entries.contains reference = true := by
  rw [Table.contains_iff, Table.mem_keys_iff] at hc ⊢
  obtain ⟨x, hx⟩ := hc
  exact ⟨x, h.kept reference x hx⟩

theorem contains_insert {t : Table String (Option Entry)} {reference reference' : String}
    {x : Option Entry} (h : t.contains reference = true) :
    (t.insert reference' x).contains reference = true := by
  rw [Table.contains_iff, Table.keys_insert] at *
  split
  · exact h
  · exact List.mem_append_left _ h

namespace Realm

/-- What holds of a pass through the graph of a value. -/
structure WalkInv (r : Realm) (v : Value) (ρ : References) (p : Pass) : Prop where
  sound : ρ.Sound
  stop : p.stop = false
  entries : ∀ reference, p.entries.contains reference = true →
    ∃ id, r.Inner v id ∧ ρ.objects.find? id = some reference
  done : ∀ reference e id o, p.entries.find? reference = some (some e) →
    ρ.objects.find? id = some reference → r.store.get id = .ok o →
      e = r.writtenEntry ρ o ∧ ∀ w ∈ o.refers, r.IsNoted ρ p w

/-! ## Objects without a place -/

/-- The object has its place among the entries. -/
def hasPlace (ρ : References) (p : Pass) (id : ObjectId) : Bool :=
  (ρ.objects.find? id).any p.entries.contains

/-- The number of objects without a place. -/
def placeless (r : Realm) (ρ : References) (p : Pass) : ℕ :=
  ((Finset.range r.store.size).filter fun id => hasPlace ρ p id = false).card

theorem hasPlace_iff {id : ObjectId} : hasPlace ρ p id = true ↔
    ∃ reference, ρ.objects.find? id = some reference ∧ p.entries.contains reference = true := by
  unfold hasPlace
  rw [Option.any_eq_true]

theorem hasPlace_mono (hρ : ρ.Le ρ') (hp : p.Le p') {id : ObjectId} (h : hasPlace ρ p id = true) :
    hasPlace ρ' p' id = true := by
  rw [hasPlace_iff] at h ⊢
  obtain ⟨reference, hr, hc⟩ := h
  exact ⟨reference, hρ.objects id reference hr, hp.contains reference hc⟩

theorem placeless_mono (h : ∀ id, hasPlace ρ p id = true → hasPlace ρ' p' id = true) :
    r.placeless ρ' p' ≤ r.placeless ρ p := by
  refine Finset.card_le_card fun id hid => ?_
  rw [Finset.mem_filter] at hid ⊢
  refine ⟨hid.1, ?_⟩
  by_contra hn
  rw [Bool.not_eq_false] at hn
  rw [h id hn] at hid
  exact Bool.noConfusion hid.2

/-- Giving an object its place leaves fewer without one. -/
theorem placeless_lt {i : ObjectId} (hid : i < r.store.size) (hn : hasPlace ρ p i = false)
    (hy : hasPlace ρ' p' i = true)
    (h : ∀ id, hasPlace ρ p id = true → hasPlace ρ' p' id = true) :
    r.placeless ρ' p' < r.placeless ρ p := by
  refine Finset.card_lt_card ⟨fun id' hid' => ?_, fun hsub => ?_⟩
  · rw [Finset.mem_filter] at hid' ⊢
    refine ⟨hid'.1, ?_⟩
    by_contra hc
    rw [Bool.not_eq_false] at hc
    rw [h id' hc] at hid'
    exact Bool.noConfusion hid'.2
  · have hm := hsub (Finset.mem_filter.mpr ⟨Finset.mem_range.mpr hid, hn⟩)
    rw [Finset.mem_filter, hy] at hm
    exact Bool.noConfusion hm.2

theorem hasPlace_of_find {id : ObjectId} {reference : String}
    (hf : ρ.objects.find? id = some reference) (hc : p.entries.contains reference = false) :
    hasPlace ρ p id = false := by
  unfold hasPlace
  rw [hf, Option.any_some, hc]

theorem placeless_pos {id : ObjectId} (hid : id < r.store.size) (hn : hasPlace ρ p id = false) :
    0 < r.placeless ρ p :=
  Finset.card_pos.mpr ⟨id, Finset.mem_filter.mpr ⟨Finset.mem_range.mpr hid, hn⟩⟩

/-! ## Actions of a walk -/

/-- From every moment of a walk at which at most `k` objects have no place yet, the action ends with
`f` of the references that have been given by then. It has noted the values `ws`, which later
references do not change. -/
def Writes {α : Type} (r : Realm) (v : Value) (k : ℕ) (x : Walk α) (f : References → α)
    (ws : List Value) : Prop :=
  ∀ ρ p, r.WalkInv v ρ p → r.placeless ρ p ≤ k →
    ∃ ρ' p', WalkYields x (r.giving ρ) p (f ρ') (r.giving ρ') p' ∧ r.WalkInv v ρ' p' ∧ ρ.Le ρ'
      ∧ p.Le p' ∧ (∀ w ∈ ws, r.IsNoted ρ' p' w) ∧ ∀ ρ'', ρ'.Le ρ'' → f ρ'' = f ρ'

section Writes

variable {α β : Type} {k : ℕ} {x : Walk α} {f : References → α} {ws ws' : List Value}

theorem Writes.pure (a : α) : r.Writes v k (Pure.pure a) (fun _ => a) [] := by
  intro ρ p hinv _
  exact ⟨ρ, p, WalkYields.pure a _ p, hinv, References.Le.refl ρ, Pass.Le.refl p,
    fun _ h => absurd h List.not_mem_nil, fun _ _ => rfl⟩

theorem Writes.bind {g : α → Walk β} {h : α → References → β} (hx : r.Writes v k x f ws)
    (hg : ∀ a, r.Writes v k (g a) (h a) ws') :
    r.Writes v k (x >>= g) (fun ρ => h (f ρ) ρ) (ws ++ ws') := by
  intro ρ p hinv hk
  obtain ⟨ρ₁, p₁, hy₁, hinv₁, hρ₁, hp₁, hws₁, hf₁⟩ := hx ρ p hinv hk
  have hk₁ : r.placeless ρ₁ p₁ ≤ k :=
    (placeless_mono fun _ => hasPlace_mono hρ₁ hp₁).trans hk
  obtain ⟨ρ₂, p₂, hy₂, hinv₂, hρ₂, hp₂, hws₂, hf₂⟩ := hg (f ρ₁) ρ₁ p₁ hinv₁ hk₁
  have he : f ρ₂ = f ρ₁ := hf₁ ρ₂ hρ₂
  refine ⟨ρ₂, p₂, ?_, hinv₂, hρ₁.trans hρ₂, hp₁.trans hp₂, ?_, ?_⟩
  · simp only [he]
    exact hy₁.bind hy₂
  · intro w hw
    rcases List.mem_append.mp hw with hw | hw
    · exact (hws₁ w hw).mono hρ₂ hp₂.contains
    · exact hws₂ w hw
  · intro ρ₃ hρ₃
    simp only [he, hf₁ ρ₃ (hρ₂.trans hρ₃)]
    exact hf₂ ρ₃ hρ₃

/-- An action after one that only reads. -/
theorem Writes.after_read {y : Run β} {b : β} {g : β → Walk α}
    (hy : ∀ ρ, Yields y (r.giving ρ) b (r.giving ρ)) (hg : r.Writes v k (g b) f ws) :
    r.Writes v k (liftM y >>= g) f ws := by
  intro ρ p hinv hk
  obtain ⟨ρ', p', hy', hrest⟩ := hg ρ p hinv hk
  exact ⟨ρ', p', ((hy ρ).walk p).bind hy', hrest⟩

/-- What an action does with the realm that it reads. -/
theorem Writes.realm {g : Realm → Walk β} {h : References → β}
    (hg : ∀ ρ, r.Writes v k (g (r.giving ρ)) h ws) :
    r.Writes v k ((liftM Stasis.realm : Walk Realm) >>= g) h ws := by
  intro ρ p hinv hk
  obtain ⟨ρ', p', hy, hrest⟩ := hg ρ ρ p hinv hk
  exact ⟨ρ', p', ((yields_realm _).walk p).bind hy, hrest⟩

theorem Writes.mapM {γ : Type} {g : γ → Walk β} {h : γ → References → β} {u : γ → List Value} :
    ∀ {l : List γ}, (∀ c ∈ l, r.Writes v k (g c) (h c) (u c)) →
      r.Writes v k (l.mapM g) (fun ρ => l.map fun c => h c ρ) (l.flatMap u) := by
  intro l hl
  induction l with
  | nil =>
    rw [List.mapM_nil]
    exact Writes.pure []
  | cons c l ih =>
    obtain ⟨hc, hl⟩ := List.forall_mem_cons.mp hl
    rw [List.mapM_cons]
    have htail : ∀ b, r.Writes v k (do let bs ← l.mapM g; Pure.pure (b :: bs))
        (fun ρ => b :: l.map fun c => h c ρ) (l.flatMap u) := by
      intro b
      have := (ih hl).bind fun bs => Writes.pure (r := r) (v := v) (k := k) (b :: bs)
      simpa using this
    exact hc.bind htail

theorem Writes.of_eq {f' : References → α} (hx : r.Writes v k x f ws) (hf : ∀ ρ, f ρ = f' ρ)
    (hws : ∀ w ∈ ws', w ∈ ws) : r.Writes v k x f' ws' := by
  obtain rfl : f = f' := funext hf
  intro ρ p hinv hk
  obtain ⟨ρ', p', hy, hinv', hρ, hp, hn, hs⟩ := hx ρ p hinv hk
  exact ⟨ρ', p', hy, hinv', hρ, hp, fun w hw => hn w (hws w hw), hs⟩

end Writes

/-! ## Symbols and keys -/

theorem yields_taggedSymbol (hρ : ρ.Sound) (id : SymbolId) :
    ∃ ρ', Yields (taggedSymbol id) (r.giving ρ) (r.writtenSymbol ρ' id) (r.giving ρ') ∧ ρ'.Sound
      ∧ ρ.Le ρ' ∧ (r.symbols.keyFor? id = none → ∃ s, ρ'.symbols.find? id = some s) := by
  cases hk : r.symbols.keyFor? id with
  | some key =>
    refine ⟨ρ, ?_, hρ, References.Le.refl ρ, fun h => absurd h (by simp)⟩
    refine (yields_get (r.giving ρ)).bind ?_
    simp only [giving, hk, writtenSymbol]
    exact Yields.pure _ _
  | none =>
    obtain ⟨hsound, hle, hfind⟩ := hρ.ofSymbol id
    refine ⟨(ρ.ofSymbol id).2, ?_, hsound, hle, fun _ => ⟨_, hfind⟩⟩
    refine (yields_get (r.giving ρ)).bind ?_
    simp only [giving, hk, writtenSymbol, hfind, Option.getD_some]
    exact (yields_set _ _).bind (Yields.pure _ _)

theorem WalkInv.mono (h : r.WalkInv v ρ p) (hsound : ρ'.Sound) (hρ : ρ.Le ρ') :
    r.WalkInv v ρ' p where
  sound := hsound
  stop := h.stop
  entries := by
    intro reference hc
    obtain ⟨id, hid, hf⟩ := h.entries reference hc
    exact ⟨id, hid, hρ.objects id reference hf⟩
  done := by
    intro reference e id o he hid ho
    have hc : p.entries.contains reference = true :=
      Table.contains_iff.mpr (Table.mem_keys_iff.mpr ⟨_, he⟩)
    obtain ⟨id', hid', hf⟩ := h.entries reference hc
    obtain rfl := hsound.objects id id' reference hid (hρ.objects id' reference hf)
    obtain ⟨hentry, hnoted⟩ := h.done reference e id o he hf ho
    refine ⟨?_, fun w hw => (hnoted w hw).mono hρ fun _ h => h⟩
    rw [hentry, writtenEntry_of_le hnoted hρ]

/-- An action that only gives references. -/
theorem Writes.refer {α : Type} {k : ℕ} {x : Run α} {f : References → α} {ws : List Value}
    (hx : ∀ ρ, ρ.Sound → ∃ ρ', Yields x (r.giving ρ) (f ρ') (r.giving ρ') ∧ ρ'.Sound ∧ ρ.Le ρ'
      ∧ (∀ p, ∀ w ∈ ws, r.IsNoted ρ' p w) ∧ ∀ ρ'', ρ'.Le ρ'' → f ρ'' = f ρ') :
    r.Writes v k (liftM x) f ws := by
  intro ρ p hinv _
  obtain ⟨ρ', hy, hsound, hle, hn, hs⟩ := hx ρ hinv.sound
  exact ⟨ρ', p, hy.walk p, hinv.mono hsound hle, hle, Pass.Le.refl p, hn p, hs⟩

theorem writes_taggedSymbol {k : ℕ} (id : SymbolId) :
    r.Writes v k (liftM (taggedSymbol id)) (fun ρ => r.written ρ (.symbol id)) [.symbol id] := by
  refine Writes.refer fun ρ hρ => ?_
  obtain ⟨ρ', hy, hsound, hle, hn⟩ := yields_taggedSymbol (r := r) hρ id
  have hnoted : ∀ p, ∀ w ∈ [Value.symbol id], r.IsNoted ρ' p w := by
    intro p w hw
    obtain rfl := List.mem_singleton.mp hw
    exact hn
  refine ⟨ρ', hy, hsound, hle, hnoted, fun ρ'' hρ'' => ?_⟩
  exact written_of_le (hnoted ⟨∅, false⟩ _ (List.mem_singleton_self _)) hρ''

theorem writes_taggedKey {k : ℕ} (key : Key) :
    r.Writes v k (liftM (taggedKey key)) (fun ρ => r.written ρ key.toValue) [key.toValue] := by
  cases key with
  | text s =>
    refine Writes.refer fun ρ hρ => ⟨ρ, Yields.pure _ _, hρ, References.Le.refl ρ, ?_, fun _ _ => rfl⟩
    intro p w hw
    obtain rfl := List.mem_singleton.mp hw
    trivial
  | symbol id => exact writes_taggedSymbol id

/-! ## Parts of an object -/

section Parts

variable [Machine] {k : ℕ} {o : Object} {id : ObjectId}

theorem writes_child (h : r.Writes v k (fun p => suspendAt p w none) (fun ρ => r.written ρ w) [w])
    (step : PathStep) : r.Writes v k (child w none step) (fun ρ => r.written ρ w) [w] := by
  intro ρ p hinv hk
  obtain ⟨ρ', p', hy, hrest⟩ := h ρ p hinv hk
  refine ⟨ρ', p', ?_, hrest⟩
  refine (walkYields_get _ p).bind ?_
  rw [hinv.stop]
  simp only [Bool.false_and, Bool.false_eq_true, if_false]
  refine ((Yields.walk hy p).bind ?_)
  exact (walkYields_set _ p p').bind (WalkYields.pure _ _ p')

/-- What the machine has to do: it suspends primitive values and what is in the graph of `v`. -/
def Suspends (r : Realm) (v : Value) (k : ℕ) : Prop :=
  ∀ w, (w.isObject = true → r.Holds v w) →
    r.Writes v k (fun p => suspendAt p w none) (fun ρ => r.written ρ w) [w]

omit [Machine] in
/-- The value of something that may be missing. -/
theorem holds_half {ids : List ObjectId} {d : Option ObjectId} (h : ∀ f ∈ d, f ∈ ids)
    (hids : ∀ f ∈ ids, r.Holds v (.object f)) {w : Value} (hother : w.isObject = false) :
    ((d.map Value.object).getD w).isObject = true →
      r.Holds v ((d.map Value.object).getD w) := by
  cases d with
  | none => intro h; simp [hother] at h
  | some f => intro _; exact hids f (h f rfl)

omit [Machine] in
/-- The type of an object is that of its kind, unless it is the prototype of a class. -/
theorem filter_typeClaims (htypes : r.objectTypes = ObjectType.all)
    (hclass : r.registry.classOf? id = none) :
    r.objectTypes.filter (r.typeClaims id o.kind) = o.kind.type?.toList := by
  have hclaims : r.typeClaims id o.kind = fun type => type.claims o.kind := by
    funext type
    cases type <;> simp [typeClaims, hclass, ObjectType.claims]
  rw [hclaims, htypes]
  cases o.kind <;> rfl

variable (hM : r.Suspends v k)
include hM

theorem Suspends.child (hw : w.isObject = true → r.Holds v w) (step : PathStep) :
    r.Writes v k (child w none step) (fun ρ => r.written ρ w) [w] :=
  writes_child (hM w hw) step

theorem Suspends.slotOf {d : Descriptor} (hd : ∀ w ∈ d.values, r.Holds v w) (key : Key) :
    r.Writes v k (slotOf key d none) (fun ρ => r.writtenSlot ρ d) d.values := by
  refine Writes.realm fun ρ₀ => ?_
  cases d with
  | data u w e c =>
    have hu := hM.child (fun _ => hd u (by simp [Descriptor.values])) ((r.giving ρ₀).stepsOf key).1
    exact (hu.bind fun t => Writes.pure _).of_eq (fun _ => rfl)
      fun _ h => by simpa [Descriptor.values] using h
  | accessor g s e c =>
    have hids : ∀ f ∈ g.toList ++ s.toList, r.Holds v (.object f) := by
      intro f hf
      exact hd _ (List.mem_map_of_mem hf)
    have hg := hM.child (holds_half (d := g) (fun f hf => by simp_all) hids (w := .undefined) rfl)
      ((r.giving ρ₀).stepsOf key).2.1
    have hs := hM.child (holds_half (d := s) (fun f hf => by simp_all) hids (w := .undefined) rfl)
      ((r.giving ρ₀).stepsOf key).2.2
    refine (hg.bind fun t => hs.bind fun u => Writes.pure _).of_eq (fun _ => rfl) fun w hw => ?_
    simp only [Descriptor.values, List.mem_map, List.mem_append, Option.mem_toList] at hw
    obtain ⟨f, rfl | rfl, rfl⟩ := hw <;> simp

/-- The payload of a data object. -/
theorem Suspends.payloadOf {type : ObjectType} (hid : r.store.get id = .ok o)
    (ht : o.kind.type? = some type) (hinert : o.kind.IsInert)
    (hheld : ∀ w ∈ o.kind.values, r.Holds v w) :
    r.Writes v k (payloadOf type id none) (fun ρ => r.writtenPayload ρ o.kind) o.kind.values := by
  have hkind : ∀ ρ, Yields (kindOf id) (r.giving ρ) o.kind (r.giving ρ) :=
    fun ρ => yields_kindOf hid
  refine Writes.after_read hkind ?_
  cases hk : o.kind <;> simp only [hk, Kind.type?, Option.some.injEq, reduceCtorEq] at ht
    <;> subst ht <;> rw [hk] at hinert hheld
  case array => exact (Writes.pure _).of_eq (fun _ => rfl) fun _ h => h
  case function => exact hinert.elim
  case error => exact hinert.elim
  case regexp => exact (Writes.pure _).of_eq (fun _ => rfl) fun _ h => h
  case date => exact (Writes.pure _).of_eq (fun _ => rfl) fun _ h => h
  case buffer => exact (Writes.pure _).of_eq (fun _ => rfl) fun _ h => h
  case wrapper u =>
    have hu := hM.child (fun _ => hheld u (by simp [Kind.values])) .wrappedValue
    exact (hu.bind fun t => Writes.pure _).of_eq (fun _ => rfl)
      fun _ h => by simpa [Kind.values] using h
  case bytes viewed offset length =>
    have hu := hM.child (fun _ => hheld (.object viewed) (by simp [Kind.values])) .unknown
    exact (hu.bind fun t => Writes.pure _).of_eq (fun _ => rfl)
      fun _ h => by simpa [Kind.values] using h
  case promise state =>
    cases state with
    | pending => exact (Writes.pure _).of_eq (fun _ => rfl) fun _ h => h
    | fulfilled u =>
      have hu := hM.child (fun _ => hheld u (by simp [Kind.values])) .unknown
      exact (hu.bind fun t => Writes.pure _).of_eq (fun _ => rfl)
        fun _ h => by simpa [Kind.values] using h
    | rejected u =>
      have hu := hM.child (fun _ => hheld u (by simp [Kind.values])) .unknown
      exact (hu.bind fun t => Writes.pure _).of_eq (fun _ => rfl)
        fun _ h => by simpa [Kind.values] using h
  case map entries =>
    have hmem : ∀ q ∈ entries.entries, ∀ w ∈ [q.1.toValue, q.2], r.Holds v w :=
      fun q hq w hw => hheld w (List.mem_flatMap.mpr ⟨q, hq, hw⟩)
    refine Writes.of_eq (((Writes.mapM (l := entries.entries)
      (h := fun q ρ => (r.written ρ q.1.toValue, r.written ρ q.2))
      (u := fun q => [q.1.toValue, q.2]) fun q hq => ?_).bind fun ts => Writes.pure (Payload.map ts)))
      (fun _ => rfl) fun _ h => by simpa [Kind.values] using h
    have hkey := hM.child (fun _ => hmem q hq q.1.toValue (by simp)) .unknown
    have hvalue := hM.child (fun _ => hmem q hq q.2 (by simp)) .unknown
    exact hkey.bind fun t => hvalue.bind fun u => Writes.pure (t, u)
  case set elements =>
    refine Writes.of_eq (((Writes.mapM (l := elements.keys.zipIdx)
      (h := fun q ρ => r.written ρ q.1.toValue)
      (u := fun q => [q.1.toValue]) fun q hq => ?_).bind fun ts => Writes.pure (Payload.set ts)))
      (fun ρ => ?_) fun w hw => ?_
    · have hmem := List.mem_of_getElem? (List.mem_zipIdx_iff_getElem?.mp hq)
      exact hM.child (fun _ => hheld _ (List.mem_map_of_mem hmem)) (.setElement q.2)
    · conv_rhs => rw [writtenPayload, ← List.zipIdx_map_fst 0 elements.keys, List.map_map]
      rfl
    · rw [Kind.values, ← List.zipIdx_map_fst 0 elements.keys, List.map_map] at hw
      obtain ⟨q, hq, rfl⟩ := List.mem_map.mp hw
      simp only [List.append_nil, List.mem_flatMap, List.mem_singleton]
      exact ⟨q, hq, rfl⟩

/-- The rest of an entry: the type and the payload. -/
theorem Suspends.payload (hid : r.store.get id = .ok o) (hinert : o.kind.IsInert)
    (hheld : ∀ w ∈ o.values, r.Holds v w) {properties : List (Tagged × Slot)}
    {prototype : Tagged} :
    r.Writes (α := Entry) v k (do
      let (objectType, payload) ← match o.kind.type? with
        | some t => do pure (t.name, (← Stasis.payloadOf t id none).toJson)
        | none => pure (plainType, Json.null)
      let o ← liftM (objectAt id)
      return ⟨objectType, prototype, o.extensible, properties, payload⟩)
      (fun ρ => ⟨(o.kind.type?.map ObjectType.name).getD plainType, prototype, o.extensible,
        properties, (o.kind.type?.map fun _ => (r.writtenPayload ρ o.kind).toJson).getD .null⟩)
      o.kind.values := by
  have hobject : ∀ ρ, Yields (objectAt id) (r.giving ρ) o (r.giving ρ) :=
    fun ρ => yields_objectAt hid
  have hvalues : ∀ w ∈ o.kind.values, r.Holds v w :=
    fun w hw => hheld w (Object.mem_values_iff.mpr (Or.inr (Or.inr hw)))
  cases ht : o.kind.type? with
  | none =>
    have hnone : o.kind.values = [] := by
      cases hk : o.kind <;> rw [hk] at ht <;> first | rfl | cases ht
    rw [hnone]
    exact Writes.after_read (g := fun o => Pure.pure
      (⟨plainType, prototype, o.extensible, properties, .null⟩ : Entry)) hobject (Writes.pure _)
  | some type =>
    have hpayload := hM.payloadOf hid ht hinert hvalues
    have hentry := hpayload.bind fun payload => Writes.after_read (g := fun o => Pure.pure
      (⟨type.name, prototype, o.extensible, properties, payload.toJson⟩ : Entry)) hobject
      (Writes.pure _)
    simp only [pure_bind]
    exact hentry.of_eq (fun _ => rfl) fun _ hw => by rwa [List.append_nil]

/-- The entry of a data object. -/
theorem Suspends.entryOf (htypes : r.objectTypes = ObjectType.all) (hid : r.store.get id = .ok o)
    (hclass : r.registry.classOf? id = none) (hinert : o.kind.IsInert)
    (hheld : ∀ w ∈ o.values, r.Holds v w) (reference : String) :
    r.Writes v k (entryOf id reference none) (fun ρ => r.writtenEntry ρ o) o.refers := by
  have hobject : ∀ ρ, Yields (objectAt id) (r.giving ρ) o (r.giving ρ) :=
    fun ρ => yields_objectAt hid
  refine Writes.after_read hobject (Writes.realm fun ρ₀ => ?_)
  have htype : (r.giving ρ₀).objectTypes.filter ((r.giving ρ₀).typeClaims id o.kind)
      = o.kind.type?.toList := filter_typeClaims (r := r.giving ρ₀) htypes hclass
  have hlength : ¬ 1 < o.kind.type?.toList.length := by cases o.kind.type? <;> simp
  have hkept : (o.ownEntries.filter fun x => !o.kind.type?.any fun t => t.skips x.1)
      = o.ownEntries := by
    refine List.filter_eq_self.mpr fun x _ => ?_
    cases hk : o.kind with
    | function behavior => rw [hk] at hinert; exact hinert.elim
    | _ => simp [Kind.type?, ObjectType.skips]
  simp only [htype, if_neg hlength, Option.head?_toList, hkept]
  have hproperty : ∀ q ∈ o.ownEntries, r.Writes v k
      (do return (← liftM (taggedKey q.1), ← Stasis.slotOf q.1 q.2 none))
      (fun ρ => (r.written ρ q.1.toValue, r.writtenSlot ρ q.2)) (q.1.toValue :: q.2.values) := by
    intro q hq
    have hd : ∀ w ∈ q.2.values, r.Holds v w :=
      fun w hw => hheld w (Object.mem_values_iff.mpr (Or.inr (Or.inl ⟨q.1, q.2, hq, hw⟩)))
    exact ((writes_taggedKey q.1).bind fun t => (hM.slotOf hd q.1).bind fun s =>
      Writes.pure (t, s)).of_eq (fun _ => rfl) fun _ h => by simpa using h
  have hprototype : ∀ w, w = (o.prototype.map Value.object).getD .null → r.Writes v k
      (Stasis.child w none .prototype)
      (fun ρ => r.written ρ ((o.prototype.map Value.object).getD .null))
      [(o.prototype.map Value.object).getD .null] := by
    rintro _ rfl
    cases hp : o.prototype with
    | none => exact hM.child (by intro h; cases h) .prototype
    | some p =>
      exact hM.child (fun _ => hheld _ (Object.mem_values_iff.mpr (Or.inl ⟨p, hp, rfl⟩))) .prototype
  refine Writes.of_eq ((Writes.mapM hproperty).bind fun properties => Writes.after_read hobject
    ((hprototype _ (by cases o.prototype <;> rfl)).bind fun prototype =>
      hM.payload hid hinert hheld)) (fun ρ => rfl) fun w hw => ?_
  rw [Object.refers, List.mem_append, Object.mem_values_iff] at hw
  simp only [List.mem_append, List.mem_flatMap, List.mem_cons]
  rcases hw with hw | ⟨p, hp, rfl⟩ | ⟨key, d, hkd, hw⟩ | hw
  · obtain ⟨key, hkey, rfl⟩ := List.mem_map.mp hw
    obtain ⟨d, hd⟩ := Table.mem_keys_iff.mp hkey
    exact Or.inl ⟨(key, d), Object.mem_ownEntries_iff.mpr hd, Or.inl rfl⟩
  · exact Or.inr (Or.inl (Or.inl (by rw [hp]; rfl)))
  · exact Or.inl ⟨(key, d), hkd, Or.inr hw⟩
  · exact Or.inr (Or.inr hw)

end Parts

/-! ## Objects -/

theorem yields_referenceFor (id : ObjectId) :
    Yields (referenceFor id) (r.giving ρ) (ρ.ofObject id).1 (r.giving (ρ.ofObject id).2) := rfl

/-- An object takes its place. -/
theorem WalkInv.take (h : r.WalkInv v ρ p) {id : ObjectId} (hid : r.Inner v id)
    {reference : String} (hf : ρ.objects.find? id = some reference) :
    r.WalkInv v ρ { p with entries := p.entries.insert reference none } where
  sound := h.sound
  stop := h.stop
  entries := by
    intro reference' hc
    rw [Table.contains_iff, Table.mem_keys_iff] at hc
    simp only [Table.find?_insert] at hc
    by_cases he : reference = reference'
    · exact ⟨id, hid, he ▸ hf⟩
    · simp only [if_neg he] at hc
      exact h.entries reference' (Table.contains_iff.mpr (Table.mem_keys_iff.mpr hc))
  done := by
    intro reference' e id' o he hid' ho
    rw [Table.find?_insert] at he
    split at he
    · cases he
    · obtain ⟨hentry, hnoted⟩ := h.done reference' e id' o he hid' ho
      refine ⟨hentry, fun w hw => (hnoted w hw).mono (References.Le.refl ρ) fun _ hc => ?_⟩
      exact contains_insert hc

/-- The place of an object is filled. -/
theorem WalkInv.fill (h : r.WalkInv v ρ p) {id : ObjectId} {o : Object} (hid : r.Inner v id)
    {reference : String} (hf : ρ.objects.find? id = some reference)
    (ho : r.store.get id = .ok o) (hnoted : ∀ w ∈ o.refers, r.IsNoted ρ p w) :
    r.WalkInv v ρ
      { p with entries := p.entries.insert reference (some (r.writtenEntry ρ o)) } where
  sound := h.sound
  stop := h.stop
  entries := by
    intro reference' hc
    rw [Table.contains_iff, Table.mem_keys_iff] at hc
    simp only [Table.find?_insert] at hc
    by_cases he : reference = reference'
    · exact ⟨id, hid, he ▸ hf⟩
    · simp only [if_neg he] at hc
      exact h.entries reference' (Table.contains_iff.mpr (Table.mem_keys_iff.mpr hc))
  done := by
    intro reference' e id' o' he hid' ho'
    have hmono : ∀ w, r.IsNoted ρ p w → r.IsNoted ρ
        { p with entries := p.entries.insert reference (some (r.writtenEntry ρ o)) } w :=
      fun w hw => hw.mono (References.Le.refl ρ) fun _ hc => contains_insert hc
    rw [Table.find?_insert] at he
    split at he
    · next heq =>
      -- the reference is that of one object only
      obtain rfl := h.sound.objects id id' reference hf (heq ▸ hid')
      rw [ho] at ho'
      cases ho'
      cases he
      exact ⟨rfl, fun w hw => hmono w (hnoted w hw)⟩
    · obtain ⟨hentry, hw⟩ := h.done reference' e id' o' he hid' ho'
      exact ⟨hentry, fun w hm => hmono w (hw w hm)⟩

section Objects

variable [Machine] {k : ℕ} {id : ObjectId} (hgraph : r.IsInertGraph v)
  (htypes : r.objectTypes = ObjectType.all)
include hgraph htypes

/-- A new object gets its place, and then its entry. -/
theorem writes_newObject (hM : r.Suspends v k) (hid : r.Inner v id) {reference : String}
    (hinv : r.WalkInv v ρ p) (hf : ρ.objects.find? id = some reference)
    (hnew : p.entries.contains reference = false) (hk : r.placeless ρ p ≤ k + 1) :
    ∃ ρ' p', WalkYields (do
        modify fun p => { p with entries := p.entries.insert reference none }
        let entry ← entryOf id reference none
        modify fun p => { p with entries := p.entries.insert reference (some entry) })
        (r.giving ρ) p () (r.giving ρ') p'
      ∧ r.WalkInv v ρ' p' ∧ ρ.Le ρ' ∧ p.Le p' ∧ r.IsNoted ρ' p' (.object id) := by
  obtain ⟨o, ho⟩ := hgraph.found id hid.1
  let p₁ : Pass := { p with entries := p.entries.insert reference none }
  have hinv₁ : r.WalkInv v ρ p₁ := hinv.take hid hf
  have hsize := Store.lt_size_of_get ho
  have hk₁ : r.placeless ρ p₁ ≤ k := by
    have hlt : r.placeless ρ p₁ < r.placeless ρ p := by
      refine placeless_lt hsize (i := id) ?_ ?_ fun id' h' => ?_
      · exact hasPlace_of_find hf hnew
      · exact hasPlace_iff.mpr ⟨reference, hf, by simp [p₁, Table.contains, Table.find?_insert]⟩
      · obtain ⟨reference', hr', hc'⟩ := hasPlace_iff.mp h'
        exact hasPlace_iff.mpr ⟨reference', hr', contains_insert hc'⟩
    omega
  have hheld : ∀ w ∈ o.values, r.Holds v w := fun w hw => .step hid.1 hid.2 ho hw
  obtain ⟨ρ₂, p₂, hy, hinv₂, hρ, hp, hnoted, -⟩ := hM.entryOf htypes ho (hgraph.classless id hid)
    (hgraph.inert id o hid ho) hheld reference ρ p₁ hinv₁ hk₁
  have hf₂ := hρ.objects id reference hf
  refine ⟨ρ₂, { p₂ with entries := p₂.entries.insert reference (some (r.writtenEntry ρ₂ o)) }, ?_,
    hinv₂.fill hid hf₂ ho hnoted, hρ, ⟨?_, ?_⟩, ?_⟩
  · exact (walkYields_modify _ _ p).bind (hy.bind (walkYields_modify _ _ p₂))
  · intro reference' x hx
    have hne : reference ≠ reference' := by
      rintro rfl
      rw [Table.contains_eq_false_iff] at hnew
      rw [hnew] at hx
      cases hx
    rw [Table.find?_insert, if_neg hne]
    refine hp.kept reference' x ?_
    rw [Table.find?_insert, if_neg hne, hx]
  · intro reference' hx
    rw [Table.find?_insert] at hx
    split at hx
    · cases hx
    · next hne =>
      have hx₁ := hp.finished reference' hx
      rwa [Table.find?_insert, if_neg hne] at hx₁
  · intro _
    exact ⟨reference, hf₂, by simp [Table.contains, Table.find?_insert]⟩

theorem writes_suspendObject (hM : ∀ j, j + 1 = k → r.Suspends v j)
    (hheld : r.Holds v (.object id)) :
    r.Writes v k (suspendObject id none) (fun ρ => r.written ρ (.object id)) [.object id] := by
  refine Writes.realm fun ρ₀ => ?_
  rw [show (r.giving ρ₀).hostPaths = r.hostPaths from rfl]
  cases hpath : r.hostPaths.pathOf? id with
  | some path =>
    have hcontains : r.hostPaths.contains id = true :=
      Table.contains_iff.mpr (Table.mem_keys_iff.mpr ⟨path, hpath⟩)
    intro ρ p hinv _
    refine ⟨ρ, p, ?_, hinv, References.Le.refl ρ, Pass.Le.refl p, ?_, fun ρ' _ => ?_⟩
    · simp only [written, hpath]
      exact WalkYields.pure _ _ p
    · intro w hw
      obtain rfl := List.mem_singleton.mp hw
      intro h
      rw [hcontains] at h
      cases h
    · simp only [written, hpath]
  | none =>
    intro ρ p hinv hk
    have hid : r.Inner v id := ⟨hheld, contains_of_pathOf? hpath⟩
    obtain ⟨hsound, hle, hf⟩ := hinv.sound.ofObject id
    have hinv₁ := hinv.mono hsound hle
    have hk₁ : r.placeless (ρ.ofObject id).2 p ≤ k :=
      (placeless_mono fun _ => hasPlace_mono hle (Pass.Le.refl p)).trans hk
    have hwritten : ∀ ρ', (ρ.ofObject id).2.Le ρ' →
        r.written ρ' (.object id) = .entry (ρ.ofObject id).1 := by
      intro ρ' hρ'
      simp only [written, hpath, hρ'.objects id _ hf, Option.getD_some]
    obtain ⟨o, ho⟩ := hgraph.found id hheld
    -- what happens once the reference is known
    suffices h : ∃ ρ' p', WalkYields (do
          if !(← get).entries.contains (ρ.ofObject id).1 then
            modify fun p => { p with entries := p.entries.insert (ρ.ofObject id).1 none }
            let entry ← entryOf id (ρ.ofObject id).1 none
            modify fun p => { p with entries := p.entries.insert (ρ.ofObject id).1 (some entry) }
          return Tagged.entry (ρ.ofObject id).1) (r.giving (ρ.ofObject id).2) p
          (Tagged.entry (ρ.ofObject id).1) (r.giving ρ') p'
        ∧ r.WalkInv v ρ' p' ∧ (ρ.ofObject id).2.Le ρ' ∧ p.Le p' ∧ r.IsNoted ρ' p' (.object id) by
      obtain ⟨ρ', p', hy, hinv', hρ', hp', hnoted⟩ := h
      refine ⟨ρ', p', ?_, hinv', hle.trans hρ', hp', ?_, fun ρ'' hρ'' => written_of_le hnoted hρ''⟩
      · simp only [hwritten ρ' hρ']
        refine (walkYields_get _ p).bind (((yields_kindOf (r := r.giving ρ) ho).walk p).bind ?_)
        rw [hinv.stop]
        exact ((yields_referenceFor id).walk p).bind hy
      · intro w hw
        obtain rfl := List.mem_singleton.mp hw
        exact hnoted
    cases hc : p.entries.contains (ρ.ofObject id).1 with
    | true =>
      refine ⟨_, p, (walkYields_get _ p).bind ?_, hinv₁, References.Le.refl _, Pass.Le.refl p,
        fun _ => ⟨_, hf, hc⟩⟩
      rw [hc]
      exact WalkYields.pure _ _ p
    | false =>
      cases k with
      | zero =>
        have hpos := placeless_pos (r := r) (Store.lt_size_of_get ho) (hasPlace_of_find hf hc)
        omega
      | succ k =>
        obtain ⟨ρ', p', hy, hrest⟩ :=
          writes_newObject hgraph htypes (hM k rfl) hid hinv₁ hf hc hk₁
        refine ⟨ρ', p', (walkYields_get _ p).bind ?_, hrest⟩
        have hthen := hy.bind (f := fun _ => Pure.pure (Tagged.entry (ρ.ofObject id).1))
          (WalkYields.pure _ _ p')
        simp only [bind_assoc] at hthen
        rw [hc]
        exact hthen

/-- A value is written, if the machine suspends what is in its object. -/
theorem writes_taggedValue (hM : ∀ j, j + 1 = k → r.Suspends v j)
    (hw : w.isObject = true → r.Holds v w) :
    r.Writes v k (taggedValue w none) (fun ρ => r.written ρ w) [w] := by
  have hprimitive : ∀ {t : Tagged}, (∀ ρ, r.written ρ w = t) → (∀ ρ p, r.IsNoted ρ p w) →
      r.Writes v k (Pure.pure t) (fun ρ => r.written ρ w) [w] := by
    intro t ht hn ρ p hinv _
    refine ⟨ρ, p, ?_, hinv, References.Le.refl ρ, Pass.Le.refl p, ?_, fun ρ' _ => ?_⟩
    · simp only [ht]
      exact WalkYields.pure t _ p
    · intro u hu
      obtain rfl := List.mem_singleton.mp hu
      exact hn ρ p
    · simp only [ht]
  cases w with
  | symbol id => exact writes_taggedSymbol id
  | object id => exact writes_suspendObject hgraph htypes hM (hw rfl)
  | _ => exact hprimitive (fun _ => rfl) fun _ _ => trivial

end Objects

/-- **A value is written with everything that it refers to**, by a machine that is deeper than there
are objects without a place. -/
theorem writes_suspend (hgraph : r.IsInertGraph v) (htypes : r.objectTypes = ObjectType.all) :
    ∀ k, @Suspends (engine (k + 1)) r v k := by
  intro k
  induction k with
  | zero =>
    intro w hw
    let _ : Machine := engine 0
    exact writes_taggedValue hgraph htypes (fun j hj => absurd hj (Nat.succ_ne_zero j)) hw
  | succ k ih =>
    intro w hw
    let _ : Machine := engine (k + 1)
    refine writes_taggedValue hgraph htypes (fun j hj => ?_) hw
    obtain rfl := Nat.succ.inj hj
    exact ih

end Realm

end Stasis
