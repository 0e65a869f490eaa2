import Mathlib
import Stasis.Proofs.Leaf

/-!
# Bare objects

* `Object.IsBare`: what is made of an object before anything is linked.
* `yields_bareEntry`: a bare object is made for an entry.
* `yields_bareEntry_bytes`: the same for a window, whose buffer is there.
-/

namespace Stasis

/-- Collections begin without elements and promises begin unsettled; everything else is what it will
be. -/
def Kind.IsBare (f : ObjectId → ObjectId) : Kind → Kind → Prop
  | .map _, k => k = .map {}
  | .set _, k => k = .set {}
  | .promise _, k => k = .promise .pending
  | k, k' => k.IsCopy f k'

/-- An object before anything is linked: without properties, but for the length of an array. -/
structure Object.IsBare (known : WellKnown) (f : ObjectId → ObjectId) (o o' : Object) : Prop where
  prototype : ∃ p ∈ known.prototypes, o'.prototype = some p
  extensible : o'.extensible = true
  properties : o'.properties.entries = if o.kind.isArray then [(Key.length, newLength)] else []
  kind : o.kind.IsBare f o'.kind

/-- The realm with one more object. -/
def Realm.push (r : Realm) (o : Object) : Realm := { r with store := ⟨r.store.objects.push o⟩ }

variable {r r' : Realm} {v w : Value} {ρ : References} {session : SessionId} {o : Object}
  {f : ObjectId → ObjectId}

theorem map_eq_of_isObject (h : w.isObject = false) (f : ObjectId → ObjectId) : w.map f = w := by
  cases w <;> first | rfl | cases h

/-- Of the objects that were made, a bare object refers to the buffer of a window only. -/
theorem Object.IsBare.congr {known : WellKnown} {f f' : ObjectId → ObjectId} {o o' : Object}
    (h : o.IsBare known f o') (hsound : o.kind.Sound)
    (hf : ∀ a i n, o.kind = .bytes a i n → f' a = f a) : o.IsBare known f' o' := by
  refine ⟨h.prototype, h.extensible, h.properties, ?_⟩
  have hk := h.kind
  cases ho : o.kind with
  | wrapper u =>
    rw [ho] at hsound hk
    cases hk' : o'.kind <;> rw [hk'] at hk <;> first | exact hk.elim | skip
    have hu : _ = u.map f := hk
    rw [map_eq_of_isObject hsound.1] at hu
    exact hu.trans (map_eq_of_isObject hsound.1 f').symm
  | bytes a i n =>
    rw [ho] at hk
    cases hk' : o'.kind <;> rw [hk'] at hk <;> first | exact hk.elim | skip
    exact ⟨hk.1.trans (hf a i n ho).symm, hk.2⟩
  | map _ | set _ | promise _ => rwa [ho] at hk
  | _ =>
    rw [ho] at hk
    cases hk' : o'.kind <;> rw [hk'] at hk <;> exact hk

theorem yields_typeNamed (h : r.objectTypes = ObjectType.all) (t : ObjectType) :
    Yields (typeNamed t.name) r (some t) r := by
  refine (yields_get r).bind ?_
  have ht : (r.objectTypes.filter fun t' => t'.name == t.name) = [t] := by
    rw [h]
    cases t <;> rfl
  simp only [ht]
  exact Yields.pure _ r

theorem name_ne_plainType (t : ObjectType) : t.name ≠ plainType := by
  cases t <;> decide

theorem yields_readPayload {type : ObjectType} {p : Payload} {j : Json}
    (h : Payload.ofJson? type j = some p) (r : Realm) : Yields (readPayload type j) r p r := by
  unfold readPayload
  rw [h]
  exact Yields.pure p r

/-- A new object without properties is bare. -/
theorem Object.isBare_of_kind {known : WellKnown} {k : Kind} {p : ObjectId}
    (hp : p ∈ known.prototypes) (ha : o.kind.isArray = false) (hk : o.kind.IsBare f k) :
    o.IsBare known f { prototype := some p, kind := k } :=
  ⟨⟨p, hp, rfl⟩, rfl, by rw [ha]; rfl, hk⟩

/-- A new array is bare. -/
theorem yields_newArray (r : Realm) (ha : o.kind = .array) :
    ∃ o', o.IsBare r.known f o' ∧ Yields (newArray []) r r.store.size (r.push o') := by
  let o₁ : Object := { prototype := some r.known.array, kind := .array }
  let o₂ : Object :=
    { o₁ with properties := (∅ : Table Key Descriptor).insert .length newLength }
  have hget : (r.push o₁).store.get r.store.size = .ok o₁ := Store.get_push_size o₁
  have hdefine : o₁.define? .length newLength = some o₂ := rfl
  refine ⟨o₂, ⟨⟨_, by simp [WellKnown.prototypes], rfl⟩, rfl, by rw [ha]; rfl, by rw [ha]; trivial⟩, ?_⟩
  refine (yields_get r).bind ((yields_allocate _ _ r).bind ?_)
  refine (yields_define hget hdefine).bind ((yields_forIn_nil _ _).bind ?_)
  have hset : (r.push o₁).store.set r.store.size o₂ = (r.push o₂).store := Store.set_push_size o₁ o₂
  rw [hset]
  exact Yields.pure _ _

/-- The time of a date is read, but for the sign of zero. -/
theorem ofJson?_date {x : Float} (hkept : IsKeptTime x) :
    ∃ time, Payload.ofJson? .date (r.writtenPayload ρ (.date x)).toJson = some (.date time)
      ∧ (Value.number (time.getD (0 / 0))).sameValueZero (.number x) = true := by
  cases hx : x.isFinite with
  | true =>
    obtain ⟨n, hn, hsame⟩ := (if_pos hx).mp hkept
    refine ⟨some n.toFloat, ?_, hsame⟩
    simp [Realm.writtenPayload, hx, Payload.toJson, hn, Payload.ofJson?, Fields.ofJson, knownFields,
      List.lookup, optional?, Payload.time?]
  | false =>
    have hnan : x.isNaN = true := (if_neg (Bool.eq_false_iff.mp hx)).mp hkept
    have hzero : ((0 : Float) / 0).isNaN = true := by decide +kernel
    refine ⟨none, ?_, ?_⟩
    · simp [Realm.writtenPayload, hx, Payload.toJson, Payload.ofJson?, Fields.ofJson, knownFields,
        List.lookup, optional?]
    · simp only [Value.sameValueZero, Option.getD_none, hzero, hnan, Bool.and_self, if_true]

/-- The buffer that is read is the one that was written. -/
theorem yields_resumeBuffer {b : Buffer} (hb : (Kind.buffer b).Sound) (r : Realm) :
    Yields (resumeBuffer b.detached b.maxLength.isSome b.bytes.size
      (b.maxLength.getD b.bytes.size) (Text.hexOfBytes b.bytes.toList)) r (.object r.store.size)
      (r.push { prototype := some r.known.buffer, kind := .buffer b }) := by
  have hlength : b.bytes.toList.length = b.bytes.size := by
    rw [byteArray_toList_eq, Array.length_toList]
    rfl
  have hsmall : (b.maxLength.isSome && decide (b.maxLength.getD b.bytes.size < b.bytes.size))
      = false := by
    cases hm : b.maxLength with
    | none => rfl
    | some max => simpa using hb max hm
  have hbuffer : Buffer.mk ⟨b.bytes.toList.toArray⟩
      (if b.maxLength.isSome then some (b.maxLength.getD b.bytes.size) else none) b.detached = b := by
    rw [byteArray_toList_eq]
    obtain ⟨bytes, max, detached⟩ := b
    cases max <;> rfl
  unfold resumeBuffer
  simp only [Text.bytesOfHex_hexOfBytes, hlength, ne_eq, not_true_eq_false, if_false, hsmall,
    Bool.false_eq_true, hbuffer]
  exact ((yields_get r).bind (yields_allocate _ _ r)).bind (Yields.pure _ _)

/-- A primitive value is wrapped. -/
theorem yields_toObject {u : Value} (hu : u.isObject = false ∧ u.isNullish = false) (r : Realm) :
    ∃ p ∈ r.known.prototypes, Yields (toObject u) r r.store.size
      (r.push { prototype := some p, kind := .wrapper u }) := by
  have hproto : ∃ p ∈ r.known.prototypes, r.prototypeOf? u = some p := by
    cases u <;> simp [WellKnown.prototypes, Realm.prototypeOf?, Value.isNullish, Value.isObject] at *
  obtain ⟨p, hp, hpu⟩ := hproto
  refine ⟨p, hp, ?_⟩
  have hy : Yields (do allocate ((← get).prototypeOf? u) (.wrapper u)) r r.store.size
      (r.push { prototype := r.prototypeOf? u, kind := .wrapper u }) :=
    (yields_get r).bind (yields_allocate _ _ r)
  rw [hpu] at hy
  cases u with
  | undefined => cases hu.2
  | null => cases hu.2
  | object id => cases hu.1
  | _ => exact hy

/-- The object of an entry with a payload is made of the payload. -/
theorem yields_bareEntry_payload [Machine] {t : ObjectType} {p : Payload} {id : ObjectId}
    {r₁ r₂ : Realm} (htypes : r₁.objectTypes = ObjectType.all) (ht : o.kind.type? = some t)
    (hlinked : t ≠ .array ∧ t ≠ .map ∧ t ≠ .set)
    (hread : Payload.ofJson? t (r.writtenPayload ρ o.kind).toJson = some p)
    (hy : Yields (bareObject session p) r₁ (.object id) r₂) :
    Yields (bareEntry session (r.writtenEntry ρ o)) r₁ (.object id) r₂ := by
  unfold bareEntry
  simp only [Realm.writtenEntry, ht, Option.map_some, Option.getD_some, name_ne_plainType, if_false]
  refine (yields_typeNamed htypes t).bind ?_
  cases t with
  | array => exact absurd rfl hlinked.1
  | map => exact absurd rfl hlinked.2.1
  | set => exact absurd rfl hlinked.2.2
  | _ => exact (yields_readPayload hread r₁).bind (hy.bind (Yields.pure (Value.object id) r₂))

/-- **A bare object is made for an entry**, unless it is one of a window on a buffer. -/
theorem yields_bareEntry (session : SessionId) {d : ℕ} (hρ : ρ.Sound)
    (hr' : (r.giving ρ).Grows r') (htypes : r.objectTypes = ObjectType.all) (hdata : o.kind.IsData r.store)
    (hsound : o.kind.Sound) (hreadable : ∀ w ∈ o.kind.values, r.IsReadable v ρ w)
    (htime : ∀ x, o.kind = .date x → IsKeptTime x) (hbytes : ∀ a i n, o.kind ≠ .bytes a i n) :
    ∃ o', o.IsBare r.known f o'
      ∧ Yields (@bareEntry (engine (d + 1)) session (r.writtenEntry ρ o)) r'
        (.object r'.store.size) (r'.push o') := by
  let _ : Machine := engine (d + 1)
  have hknown : r'.known = r.known := hr'.known
  have htypes' : r'.objectTypes = ObjectType.all := hr'.types.trans htypes
  have hallocate : ∀ (p : WellKnown → ObjectId) (k : Kind),
      Yields (do return Value.object (← allocate (some (p (← get).known)) k)) r'
        (.object r'.store.size) (r'.push { prototype := some (p r.known), kind := k }) := by
    intro p k
    rw [← hknown]
    exact (yields_get r').bind ((yields_allocate _ k r').bind (Yields.pure _ _))
  have hflat : ∀ t ∈ (r.writtenPayload ρ o.kind).values, t.IsFlat := by
    intro t ht
    obtain ⟨w, -, rfl⟩ := (mem_values_writtenPayload_iff hdata.isInert).mp ht
    exact isFlat_written r ρ w
  cases hk : o.kind with
  | function _ => rw [hk] at hdata; exact hdata.elim
  | error => rw [hk] at hdata; exact hdata.elim
  | bytes a i n => exact absurd hk (hbytes a i n)
  | ordinary =>
    refine ⟨{ prototype := some r.known.object, kind := .ordinary }, Object.isBare_of_kind
      (by simp [WellKnown.prototypes]) (by rw [hk]; rfl) (by rw [hk]; trivial), ?_⟩
    have hentry : (r.writtenEntry ρ o).objectType = plainType := by
      simp [Realm.writtenEntry, hk, Kind.type?]
    unfold bareEntry
    rw [if_pos hentry]
    exact hallocate WellKnown.object .ordinary
  | array =>
    obtain ⟨o', ho', hy⟩ := yields_newArray (f := f) r' hk
    refine ⟨o', hknown ▸ ho', ?_⟩
    unfold bareEntry
    simp only [Realm.writtenEntry, hk, Kind.type?, Option.map_some, Option.getD_some,
      name_ne_plainType, if_false]
    exact (yields_typeNamed htypes' .array).bind (hy.bind (Yields.pure _ _))
  | map entries =>
    refine ⟨{ prototype := some r.known.map, kind := .map {} }, Object.isBare_of_kind
      (by simp [WellKnown.prototypes]) (by rw [hk]; rfl) (by rw [hk]; rfl), ?_⟩
    unfold bareEntry
    simp only [Realm.writtenEntry, hk, Kind.type?, Option.map_some, Option.getD_some,
      name_ne_plainType, if_false]
    exact (yields_typeNamed htypes' .map).bind (hallocate WellKnown.map (.map {}))
  | set elements =>
    refine ⟨{ prototype := some r.known.set, kind := .set {} }, Object.isBare_of_kind
      (by simp [WellKnown.prototypes]) (by rw [hk]; rfl) (by rw [hk]; rfl), ?_⟩
    unfold bareEntry
    simp only [Realm.writtenEntry, hk, Kind.type?, Option.map_some, Option.getD_some,
      name_ne_plainType, if_false]
    exact (yields_typeNamed htypes' .set).bind (hallocate WellKnown.set (.set {}))
  | date x =>
    rw [hk] at hsound
    obtain ⟨time, hread, hsame⟩ := ofJson?_date (r := r) (ρ := ρ) (htime x hk)
    refine ⟨{ prototype := some r.known.date, kind := .date (time.getD (0 / 0)) },
      Object.isBare_of_kind (by simp [WellKnown.prototypes]) (by rw [hk]; rfl)
        (by rw [hk]; exact hsame),
      yields_bareEntry_payload htypes' (by rw [hk]; rfl) (by decide) (by rw [hk]; exact hread) ?_⟩
    exact hallocate WellKnown.date _
  | regexp pattern flags =>
    refine ⟨{ prototype := some r.known.regexp, kind := .regexp pattern flags },
      Object.isBare_of_kind (by simp [WellKnown.prototypes]) (by rw [hk]; rfl)
        (by rw [hk]; exact ⟨rfl, rfl⟩),
      yields_bareEntry_payload htypes' (t := .regexp) (by rw [hk]; rfl) (by decide)
        (Payload.ofJson?_toJson (by rw [hk]; rfl) hflat) ?_⟩
    rw [hk]
    exact hallocate WellKnown.regexp (.regexp pattern flags)
  | wrapper u =>
    rw [hk] at hsound hreadable
    obtain ⟨p, hp, hy⟩ := yields_toObject hsound r'
    have hu := hreadable u (by simp [Kind.values])
    refine ⟨{ prototype := some p, kind := .wrapper u }, Object.isBare_of_kind (hknown ▸ hp)
        (by rw [hk]; rfl) (by rw [hk]; exact (map_eq_of_isObject hsound.1 f).symm),
      yields_bareEntry_payload htypes' (t := .wrapper) (by rw [hk]; rfl) (by decide)
        (Payload.ofJson?_toJson (by rw [hk]; rfl) hflat) ?_⟩
    rw [hk]
    have hresolve : Yields (resolve session (r.written ρ u)) r' u r' :=
      let _ : Machine := engine d
      yields_resolve_primitive hρ hr' hu hsound.1
    refine hresolve.bind ?_
    rw [hsound.1, hsound.2]
    exact hy.bind (Yields.pure _ _)
  | buffer b =>
    rw [hk] at hsound
    refine ⟨{ prototype := some r.known.buffer, kind := .buffer b },
      Object.isBare_of_kind (by simp [WellKnown.prototypes]) (by rw [hk]; rfl)
        (by rw [hk]; rfl),
      yields_bareEntry_payload htypes' (t := .buffer) (by rw [hk]; rfl) (by decide)
        (Payload.ofJson?_toJson (by rw [hk]; rfl) hflat) ?_⟩
    rw [hk, ← hknown]
    exact yields_resumeBuffer hsound r'
  | promise state =>
    have hbare : o.IsBare r.known f { prototype := some r.known.promise, kind := .promise .pending } :=
      Object.isBare_of_kind (by simp [WellKnown.prototypes]) (by rw [hk]; rfl) (by rw [hk]; rfl)
    have hnew : Yields (do return Value.object (← newPromise .pending)) r' (.object r'.store.size)
        (r'.push { prototype := some r.known.promise, kind := .promise .pending }) := by
      rw [← hknown]
      exact ((yields_get r').bind (yields_allocate _ _ r')).bind (Yields.pure _ _)
    rw [hk] at hdata
    cases state with
    | pending => exact hdata.elim
    | fulfilled u =>
      refine ⟨_, hbare, yields_bareEntry_payload htypes' (t := .promise) (by rw [hk]; rfl)
        (by decide) (Payload.ofJson?_toJson (by rw [hk]; rfl) hflat) ?_⟩
      rw [hk]
      exact hnew
    | rejected u =>
      refine ⟨_, hbare, yields_bareEntry_payload htypes' (t := .promise) (by rw [hk]; rfl)
        (by decide) (Payload.ofJson?_toJson (by rw [hk]; rfl) hflat) ?_⟩
      rw [hk]
      exact hnew

/-- **A window is made** once its buffer is there. -/
theorem yields_bareEntry_bytes [Machine] {a i n : ℕ} {b : Buffer} {o' : Object} {r₁ r₂ : Realm}
    (hdata : o.kind.IsData r.store) (hk : o.kind = .bytes a i n)
    (htypes : r₁.objectTypes = ObjectType.all) (hknown : r₂.known = r.known)
    (hy : Yields (resolve session (r.written ρ (.object a))) r₁ (.object (f a)) r₂)
    (ho' : r₂.store.get (f a) = .ok o') (hbuffer : o'.kind = .buffer b)
    (hsize : i + n ≤ b.bytes.size) :
    ∃ o', o.IsBare r.known f o'
      ∧ Yields (bareEntry session (r.writtenEntry ρ o)) r₁ (.object r₂.store.size) (r₂.push o') := by
  have hflat : ∀ t ∈ (r.writtenPayload ρ o.kind).values, t.IsFlat := by
    intro t ht
    obtain ⟨w, -, rfl⟩ := (mem_values_writtenPayload_iff hdata.isInert).mp ht
    exact isFlat_written r ρ w
  refine ⟨{ prototype := some r.known.bytes, kind := .bytes (f a) i n },
    Object.isBare_of_kind (by simp [WellKnown.prototypes]) (by rw [hk]; rfl)
      (by rw [hk]; exact ⟨rfl, rfl, rfl⟩),
    yields_bareEntry_payload htypes (t := .bytes) (by rw [hk]; rfl) (by decide)
      (Payload.ofJson?_toJson (by rw [hk]; rfl) hflat) ?_⟩
  rw [hk, ← hknown]
  refine hy.bind ((yields_kindOf ho').bind ?_)
  rw [hbuffer]
  simp only [if_neg (not_lt_of_ge hsize)]
  exact (yields_get r₂).bind ((yields_allocate _ _ r₂).bind (Yields.pure _ _))

end Stasis
