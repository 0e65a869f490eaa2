import Mathlib
import Stasis.Proofs.Copy

/-!
# Windows on buffers

A window shows a part of a buffer, which may become shorter behind its back. A window that lies within
its buffer is suspended and resumed with the bytes that it shows. One that reaches beyond it is
suspended as it is, and its envelope is refused.

* `Realm.Views`: an object is a window on a buffer.
* `Realm.IsCopy.views`: the windows of a copy show what the windows of the original show.
* `yields_windows`: windows within their buffers are suspended and resumed.
* `raises_deserialize_window`: a window beyond its buffer is suspended and never resumed.
-/

namespace Stasis

variable {r r' r'' : Realm} {v w : Value} {ρ : References} {e : Envelope} {S : Session}
  {session : SessionId} {o : Object} {id id' a a' : ObjectId} {i n d : ℕ} {b : Buffer}
  {reference : String} {cause : EngineError}

/-- The object `id` is a window on the object `a`, which is a buffer. -/
structure Realm.Views (r : Realm) (id a : ObjectId) (i n : ℕ) (b : Buffer) : Prop where
  window : ∃ o, r.store.get id = .ok o ∧ o.kind = .bytes a i n
  buffer : ∃ o, r.store.get a = .ok o ∧ o.kind = .buffer b

/-- Windows on the same part of the same bytes have the same elements. -/
theorem Realm.Views.element?_eq (h : r.Views id a i n b) (h' : r'.Views id' a' i n b) (key : Key) :
    r'.element? id' key = r.element? id key := by
  obtain ⟨⟨o, ho, hk⟩, u, hu, hb⟩ := h
  obtain ⟨⟨o', ho', hk'⟩, u', hu', hb'⟩ := h'
  have hbyte : ∀ index, r'.byteAt? a' index = r.byteAt? a index := by
    intro index
    unfold Realm.byteAt?
    simp only [hu, hu', hb, hb', bind, Except.bind]
  unfold Realm.element?
  simp only [ho, ho', hk, hk', hbyte, bind, Except.bind]

/-! ## A window on eight bytes -/

/-- Eight bytes that are all zero. -/
def eightBytes : Buffer where
  bytes := ⟨Array.replicate 8 0⟩

/-- A window on eight bytes, behind the first two. -/
def windowRealm (n : ℕ) : Realm := .small #[
    { prototype := some 1, kind := .bytes 2 2 n },
    { prototype := none, kind := .ordinary },
    { prototype := some 1, kind := .buffer eightBytes }] 1

theorem windowRealm_get (h : (windowRealm n).store.get id = .ok o) :
    id = 0 ∧ o = { prototype := some 1, kind := .bytes 2 2 n } ∨
      id = 1 ∧ o = { prototype := none, kind := .ordinary } ∨
      id = 2 ∧ o = { prototype := some 1, kind := .buffer eightBytes } := by
  have hid : id < 3 := Store.lt_size_of_get h
  interval_cases id <;> cases h
  · exact .inl ⟨rfl, rfl⟩
  · exact .inr (.inl ⟨rfl, rfl⟩)
  · exact .inr (.inr ⟨rfl, rfl⟩)

theorem windowRealm_holds (h : (windowRealm n).Holds (.object 0) w) :
    w ∈ [Value.object 0, .object 1, .object 2] := by
  induction h with
  | self => simp
  | @step _ _ w _ inner found refers =>
    rcases windowRealm_get found with ⟨rfl, rfl⟩ | ⟨rfl, rfl⟩ | ⟨rfl, rfl⟩
    · have hw : w ∈ [Value.object 1, .object 2] := refers
      simp_all
    · cases inner
    · have hw : w ∈ [Value.object 1] := refers
      simp_all

theorem windowRealm_sound (n : ℕ) : (windowRealm n).Sound where
  references := ⟨nofun, nofun, nofun⟩
  objects := by
    intro id o ho
    rcases windowRealm_get ho with ⟨rfl, rfl⟩ | ⟨rfl, rfl⟩ | ⟨rfl, rfl⟩
    · exact ⟨trivial, nofun, nofun⟩
    · exact ⟨trivial, nofun, nofun⟩
    · exact ⟨nofun, nofun, nofun⟩
  types := rfl

theorem windowRealm_pathsLead (n : ℕ) : (windowRealm n).PathsLead := Realm.small_pathsLead ⟨_, rfl⟩

theorem windowRealm_isInertGraph (n : ℕ) : (windowRealm n).IsInertGraph (.object 0) where
  found := by
    intro id h
    have h := windowRealm_holds h
    simp only [List.mem_cons, Value.object.injEq, List.not_mem_nil, or_false] at h
    rcases h with rfl | rfl | rfl <;> exact ⟨_, rfl⟩
  inert := by
    intro id o _ ho
    rcases windowRealm_get ho with ⟨rfl, rfl⟩ | ⟨rfl, rfl⟩ | ⟨rfl, rfl⟩ <;> trivial
  classless := fun _ _ => rfl

theorem windowRealm_isDataGraph (hn : 2 + n ≤ 8) : (windowRealm n).IsDataGraph (.object 0) where
  found := (windowRealm_isInertGraph n).found
  data := by
    intro id o _ ho
    rcases windowRealm_get ho with ⟨rfl, rfl⟩ | ⟨rfl, rfl⟩ | ⟨rfl, rfl⟩
    · exact ⟨_, eightBytes, rfl, rfl, hn⟩
    · trivial
    · trivial
  classless := fun _ _ => rfl
  wide := by
    intro n h
    simpa using windowRealm_holds h

theorem windowRealm_keepsNumbers (n : ℕ) : (windowRealm n).KeepsNumbers (.object 0) where
  numbers := by
    intro x h
    simpa using windowRealm_holds h
  times := by
    intro id o x _ ho hx
    rcases windowRealm_get ho with ⟨rfl, rfl⟩ | ⟨rfl, rfl⟩ | ⟨rfl, rfl⟩ <;> cases hx

theorem windowRealm_arraysEnd (n : ℕ) : (windowRealm n).ArraysEnd (.object 0) := by
  intro id o _ ho ha
  rcases windowRealm_get ho with ⟨rfl, rfl⟩ | ⟨rfl, rfl⟩ | ⟨rfl, rfl⟩ <;> cases ha

theorem windowRealm_hasShortChains (n : ℕ) : (windowRealm n).HasShortChains (.object 0) := by
  refine ⟨1, 1, by decide, fun id o _ ho => ?_, fun p hp => ?_⟩
  · rcases windowRealm_get ho with ⟨rfl, rfl⟩ | ⟨rfl, rfl⟩ | ⟨rfl, rfl⟩
    · exact ⟨_, rfl, trivial⟩
    · trivial
    · exact ⟨_, rfl, trivial⟩
  · obtain rfl := Realm.small_isPrototype hp
    exact ⟨_, rfl, trivial⟩

theorem windowRealm_views (n : ℕ) : (windowRealm n).Views 0 2 2 n eightBytes :=
  ⟨⟨_, rfl, rfl⟩, _, rfl, rfl⟩

/-! ## Windows within their buffers -/

theorem Kind.IsCopy.eq_bytes {f : ObjectId → ObjectId} {k : Kind}
    (h : (Kind.bytes a i n).IsCopy f k) : k = .bytes (f a) i n := by
  cases k with
  | bytes =>
    obtain ⟨rfl, rfl, rfl⟩ := h
    rfl
  | _ => exact h.elim

theorem Kind.IsCopy.eq_buffer {f : ObjectId → ObjectId} {k : Kind}
    (h : (Kind.buffer b).IsCopy f k) : k = .buffer b := by
  cases k with
  | buffer => exact congrArg Kind.buffer h
  | _ => exact h.elim

/-- **The windows of a copy** are copies of windows, on copies of their buffers. -/
theorem Realm.IsCopy.views (h : r.IsCopy r' v w) : ∃ f : ObjectId → ObjectId, w = v.map f ∧
    Set.InjOn f {id | r.Inner v id} ∧ ∀ id a i n b, r.Inner v id → r.Views id a i n b →
      r'.Inner w (f id) ∧ r'.Views (f id) (f a) i n b := by
  obtain ⟨f, hw, hbij, hhost, -, hcopy, hkept⟩ := h
  refine ⟨f, hw, hbij.injOn, fun id a i n b hid hviews => ⟨hbij.mapsTo hid, ?_⟩⟩
  obtain ⟨⟨o, ho, hk⟩, u, hu, hb⟩ := hviews
  obtain ⟨o', ho', hsame⟩ := hcopy id o hid ho
  have hwindow : o'.kind = .bytes (f a) i n := (hk ▸ hsame.kind).eq_bytes
  have hbuffer : ∃ u', r'.store.get (f a) = .ok u' ∧ u'.kind = .buffer b := by
    cases hpath : r.hostPaths.contains a with
    | true =>
      rw [hhost a hpath]
      exact ⟨u, hkept a u hu, hb⟩
    | false =>
      have hheld : r.Holds v (.object a) := .step hid.1 hid.2 ho
        (Object.mem_values_iff.mpr (.inr (.inr (by rw [hk]; exact List.mem_singleton_self _))))
      obtain ⟨u', hu', hsame'⟩ := hcopy a u ⟨hheld, hpath⟩ hu
      exact ⟨u', hu', (hb ▸ hsame'.kind).eq_buffer⟩
  exact ⟨⟨o', ho', hwindow⟩, hbuffer⟩

/-- **Windows within their buffers are suspended and resumed**, at every depth that is great enough. Each
window of a graph of data comes back as a window on the same part of the same bytes, with the same
elements; windows on one buffer are again on one buffer, and those on different ones are not. -/
theorem yields_windows (hsound : r.Sound) (hpaths : r.PathsLead) (hdata : r.IsDataGraph v)
    (hnumbers : r.KeepsNumbers v) (harrays : r.ArraysEnd v) (hshort : r.HasShortChains v) :
    ∃ k, ∀ depth, k ≤ depth → ∃ (e : Envelope) (r₁ r₂ : Realm) (f : ObjectId → ObjectId),
      Yields (@serialize (engine depth) v {}) r e r₁ ∧
      Yields (@deserialize (engine depth) e) r₁ (v.map f) r₂ ∧ Set.InjOn f {id | r.Inner v id} ∧
      ∀ id a i n b, r.Inner v id → r.Views id a i n b →
        r₂.Views (f id) (f a) i n b ∧ ∀ key, r₂.element? (f id) key = r.element? id key := by
  obtain ⟨k, hk⟩ := hpaths.bound
  refine ⟨k + r.store.size + 4, fun depth hdepth => ?_⟩
  obtain ⟨d, rfl⟩ : ∃ d, depth = d + 3 := ⟨depth - 3, by omega⟩
  obtain ⟨ρ, e, events, hy, hwritten⟩ := yields_serialize hsound hdata hnumbers
    (d := d + 3) (by omega)
  have hsize := hwritten.size_le hdata
  have hgrows : (r.giving ρ).Grows { r.giving ρ with events } :=
    { Realm.Grows.refl (r.giving ρ) with }
  obtain ⟨w, r₂, hy', hcopy⟩ := yields_deserialize (d := d)
    ⟨hsound, hdata, hnumbers, hwritten, hpaths.found, hk⟩ (by omega) (by omega) harrays hshort hgrows
  obtain ⟨f, rfl, hinj, hviews⟩ := hcopy.views
  refine ⟨e, _, r₂, f, hy, hy', hinj, fun id a i n b hid hview => ?_⟩
  have hcopied : r₂.Views (f id) (f a) i n b := (hviews id a i n b hid hview).2
  exact ⟨hcopied, hview.element?_eq hcopied⟩

/-- Four of the eight bytes come back. -/
theorem yields_windows_four : ∃ k, ∀ depth, k ≤ depth →
    ∃ (e : Envelope) (r₁ r₂ : Realm) (f : ObjectId → ObjectId),
      Yields (@serialize (engine depth) (.object 0) {}) (windowRealm 4) e r₁ ∧
      Yields (@deserialize (engine depth) e) r₁ (.object (f 0)) r₂ ∧
      r₂.Views (f 0) (f 2) 2 4 eightBytes := by
  obtain ⟨k, hk⟩ := yields_windows (windowRealm_sound 4) (windowRealm_pathsLead 4)
    (windowRealm_isDataGraph (by decide)) (windowRealm_keepsNumbers 4) (windowRealm_arraysEnd 4)
    (windowRealm_hasShortChains 4)
  refine ⟨k, fun depth hdepth => ?_⟩
  obtain ⟨e, r₁, r₂, f, hy, hy', -, hviews⟩ := hk depth hdepth
  exact ⟨e, r₁, r₂, f, hy, hy', (hviews 0 2 2 4 eightBytes ⟨.self, rfl⟩ (windowRealm_views 4)).1⟩

/-! ## Windows beyond their buffers -/

/-- What a window beyond its buffer is refused with. -/
def beyondBuffer (i n : ℕ) (b : Buffer) : EngineError :=
  .invalidEnvelope ("uint8-array view " ++ toString i ++ "+" ++ toString n
    ++ " exceeds its " ++ toString b.bytes.size ++ "-byte buffer")

/-- No window is made beyond the buffer that is there. -/
theorem raises_bareEntry_bytes [Machine] {o' : Object} {r₁ r₂ : Realm} (hk : o.kind = .bytes a i n)
    (htypes : r₁.objectTypes = ObjectType.all)
    (hy : Yields (resolve session (r.written ρ (.object a))) r₁ (.object a') r₂)
    (ho' : r₂.store.get a' = .ok o') (hbuffer : o'.kind = .buffer b)
    (hbeyond : b.bytes.size < i + n) :
    Raises (bareEntry session (r.writtenEntry ρ o)) r₁ (beyondBuffer i n b) r₂ := by
  have hflat : ∀ t ∈ (r.writtenPayload ρ o.kind).values, t.IsFlat := by
    intro t ht
    rw [hk] at ht
    obtain rfl := List.mem_singleton.mp ht
    exact isFlat_written r ρ _
  have hread : Payload.ofJson? .bytes (r.writtenPayload ρ o.kind).toJson
      = some (r.writtenPayload ρ o.kind) := Payload.ofJson?_toJson (by rw [hk]; rfl) hflat
  have hrefused : Raises (bareObject session (r.writtenPayload ρ o.kind)) r₁ (beyondBuffer i n b)
      r₂ := by
    rw [hk]
    refine hy.bind_raises ((yields_kindOf ho').bind_raises ?_)
    rw [hbuffer]
    simp only [if_pos hbeyond]
    exact (raises_raise _ r₂).bind _
  unfold bareEntry
  simp only [Realm.writtenEntry, hk, Kind.type?, Option.map_some, Option.getD_some,
    name_ne_plainType, if_false]
  rw [hk] at hread hrefused
  exact (yields_typeNamed htypes .bytes).bind_raises ((yields_readPayload hread r₁).bind_raises
    (hrefused.bind _))

/-- An entry whose bare object cannot be made. -/
theorem raises_resolveEntry [Machine] {x : Entry} (h : r.Making v ρ e session r' S)
    (hm : S.made.find? reference = none) (hbegun : reference ∉ S.unfinished)
    (hentry : e.entries.find? reference = some x)
    (hmake : ∀ r₁, r.Making v ρ e session r₁ { S with unfinished := reference :: S.unfinished } →
      ∃ r₂ S₂, Raises (bareEntry session x) r₁ cause r₂ ∧ r₂.sessions[session]? = some S₂) :
    ∃ r'' S', Raises (resolveEntry session reference) r' cause r'' ∧
      r''.sessions[session]? = some S' := by
  have hnone : ∀ reference' ∈ reference :: S.unfinished, S.made.find? reference' = none := by
    intro reference' hr
    rcases List.mem_cons.mp hr with rfl | hr
    · exact hm
    · exact h.unfinished reference' hr
  have h₁ := h.changeUnfinished (f := fun s => { s with unfinished := reference :: s.unfinished })
    (reference :: S.unfinished) hnone rfl
  obtain ⟨r₂, S₂, hraises, hS₂⟩ := hmake _ h₁
  have hcontains : S.unfinished.contains reference = false := by simpa using hbegun
  let finish : Session → Session := fun s => { s with unfinished := s.unfinished.erase reference }
  have hraised : Raises (resolveEntry session reference) r' cause
      { r₂ with sessions := r₂.sessions.modify session finish } := by
    refine (yields_sessionAt h.session).bind_raises ?_
    rw [hm, h.entries, hentry, hcontains]
    refine (yields_changeSession _ r').bind_raises (hraises.attempt.bind_raises
      ((yields_changeSession _ r₂).bind_raises ?_))
    exact (raises_raise cause _).bind _
  refine ⟨_, finish S₂, hraised, ?_⟩
  simp only [Array.getElem?_modify, if_true, hS₂, Option.map_some]

/-- The buffer of a window is read, while the window is being made. -/
theorem yields_resolve_viewed {k : ℕ} {u : Object} (hsound : r.Sound) (hgraph : r.IsInertGraph v)
    (hwritten : r.IsWrittenAs v ρ e) (hpaths : r.LeadsFrom k) (hd : k ≤ d + 1)
    (h : r.Making v ρ e session r' S) (hheld : r.Holds v (.object a))
    (hu : r.store.get a = .ok u) (hb : u.kind = .buffer b)
    (hbegun : ∀ reference, ρ.objects.find? a = some reference → reference ∉ S.unfinished) :
    r.Reads v ρ e session (@resolveTagged (engine (d + 1)) session (r.written ρ (.object a)))
      (.object a) r' S := by
  refine yields_resolveTagged hsound hgraph hwritten hpaths hd h hheld
    fun a' u' reference ha _ hu' hf => ?_
  cases ha
  cases hu.symm.trans hu'
  refine ⟨hbegun reference hf, fun r₁ h₁ _ => ?_⟩
  obtain ⟨o', hbare, hy⟩ := yields_bareEntry session (d := d) (v := v) (o := u)
    (f := Session.copyOf { S with unfinished := reference :: S.unfinished } ρ) hwritten.sound
    h₁.grows hsound.types (by rw [hb]; trivial) (hsound.objects a u hu).kind
    (by rw [hb]; exact fun _ hw => absurd hw List.not_mem_nil) (by rw [hb]; nofun) (by rw [hb]; nofun)
  exact ⟨r₁, _, o', hy, h₁, ⟨fun _ _ h => h, List.prefix_refl _⟩, rfl, hbare, by rw [hb]; nofun⟩

/-- A window beyond its buffer is not read. -/
theorem raises_resolve_window {k : ℕ} (hsound : r.Sound) (hgraph : r.IsInertGraph (.object id))
    (hwritten : r.IsWrittenAs (.object id) ρ e) (hpaths : r.LeadsFrom k) (hd : k ≤ d + 1)
    (h : r.Making (.object id) ρ e session r' S) (hm : S.made = {}) (hun : S.unfinished = [])
    (hid : r.hostPaths.contains id = false) (hviews : r.Views id a i n b)
    (hbeyond : b.bytes.size < i + n) :
    ∃ r'' S', Raises (@resolve (engine (d + 3)) session e.root) r' (beyondBuffer i n b) r'' ∧
      r''.sessions[session]? = some S' := by
  obtain ⟨⟨o, ho, hk⟩, u, hu, hb⟩ := hviews
  have hinner : r.Inner (.object id) id := ⟨.self, hid⟩
  obtain ⟨reference, hf, hentry⟩ := hwritten.entry id o hinner ho
  have hroot : e.root = .entry reference := by
    have hpath : r.hostPaths.pathOf? id = none := Table.contains_eq_false_iff.mp hid
    rw [hwritten.root]
    simp only [Realm.written, hpath, hf, Option.getD_some]
  have hheld : r.Holds (.object id) (.object a) := .step .self hid ho
    (Object.mem_values_iff.mpr (.inr (.inr (by rw [hk]; exact List.mem_singleton_self _))))
  -- the buffer is another object than the window that is being made
  have hother : ∀ reference', ρ.objects.find? a = some reference' → reference' ∉ [reference] := by
    intro reference' hf' hr
    obtain rfl := List.mem_singleton.mp hr
    obtain rfl := hwritten.sound.objects id a _ hf hf'
    cases ho.symm.trans hu
    cases hk.symm.trans hb
  rw [hroot]
  let _ : Machine := engine (d + 2)
  refine raises_resolveEntry h (by rw [hm]; rfl) (by rw [hun]; exact List.not_mem_nil) hentry
    fun r₁ h₁ => ?_
  obtain ⟨r₂, S₂, hy, h₂, -, -, hknows⟩ := yields_resolve_viewed (d := d) hsound hgraph hwritten
    hpaths hd h₁ hheld hu hb (by rw [hun]; exact hother)
  obtain ⟨o', ho', hb'⟩ := h₂.buffer hwritten.sound hu hb hknows
  have htypes : r₁.objectTypes = ObjectType.all := h₁.grows.types.trans hsound.types
  exact ⟨r₂, S₂, raises_bareEntry_bytes hk htypes hy ho' hb' hbeyond, h₂.session⟩

/-- **A window beyond its buffer is suspended, and never resumed**, at every depth that is great enough:
its envelope is refused in the realm that has written it. -/
theorem raises_deserialize_window (hsound : r.Sound) (hpaths : r.PathsLead)
    (hgraph : r.IsInertGraph (.object id)) (hnumbers : r.KeepsNumbers (.object id))
    (hid : r.hostPaths.contains id = false) (hviews : r.Views id a i n b)
    (hbeyond : b.bytes.size < i + n) :
    ∃ k, ∀ depth, k ≤ depth → ∃ e r₁ r₂, Yields (@serialize (engine depth) (.object id) {}) r e r₁ ∧
      Raises (@deserialize (engine depth) e) r₁ (beyondBuffer i n b) r₂ := by
  obtain ⟨k, hk⟩ := hpaths.bound
  refine ⟨k + r.store.size + 4, fun depth hdepth => ?_⟩
  obtain ⟨d, rfl⟩ : ∃ d, depth = d + 3 := ⟨depth - 3, by omega⟩
  obtain ⟨ρ, e, events, hy, hwritten⟩ := yields_serialize_inert hsound hgraph hnumbers
    (d := d + 3) (by omega)
  have hgrows : (r.giving ρ).Grows { r.giving ρ with events } :=
    { Realm.Grows.refl (r.giving ρ) with }
  obtain ⟨r₂, S, hraises, hS⟩ := raises_resolve_window (d := d) hsound hgraph hwritten hk (by omega)
    (Realm.making_start hgrows) rfl rfl hid hviews hbeyond
  obtain ⟨r₃, hrefused⟩ := @raises_deserialize _ _ _ (engine (d + 3)) e S (hraises.bind _) hS
  exact ⟨e, _, r₃, hy, hrefused⟩

/-- Seven bytes are too many. -/
theorem raises_deserialize_window_seven : ∃ k, ∀ depth, k ≤ depth → ∃ e r₁ r₂,
    Yields (@serialize (engine depth) (.object 0) {}) (windowRealm 7) e r₁ ∧
      Raises (@deserialize (engine depth) e) r₁ (.invalidEnvelope
        "uint8-array view 2+7 exceeds its 8-byte buffer") r₂ :=
  raises_deserialize_window (windowRealm_sound 7) (windowRealm_pathsLead 7)
    (windowRealm_isInertGraph 7) (windowRealm_keepsNumbers 7) rfl (windowRealm_views 7) (by decide)

end Stasis
