import Mathlib
import Stasis.Proofs.Bare

/-!
# Making bare objects

A session makes one bare object for every entry, when the entry is first needed. Windows need their
buffers; nothing else needs another object at once.

* `Session.copyOf`: the object that has been made for an object.
* `Realm.Making`: what holds while objects are made.
* `yields_resolve`: every value of the graph is read, and its object is made.
-/

namespace Stasis

/-- The second object has been made for the first one. -/
def Session.HasMade (S : Session) (ρ : References) (id id' : ObjectId) : Prop :=
  ∃ reference, ρ.objects.find? id = some reference ∧ S.made.find? reference = some (.object id')

/-- The object that has been made for an object; the object itself where none has. -/
def Session.copyOf (S : Session) (ρ : References) (id : ObjectId) : ObjectId :=
  match (ρ.objects.find? id).bind S.made.find? with
  | some (.object id') => id'
  | _ => id

/-- The value is primitive, or an object of the host, or its object has been made. -/
def Session.Knows (S : Session) (r : Realm) (ρ : References) (w : Value) : Prop :=
  ∀ id, w = .object id → r.hostPaths.contains id = false → ∃ id', S.HasMade ρ id id'

/-- The session has gone on making objects. -/
structure Session.Le (S S' : Session) : Prop where
  made : ∀ reference w, S.made.find? reference = some w → S'.made.find? reference = some w
  keys : S.made.keys <+: S'.made.keys

variable {S S' S'' : Session} {r r' r'' : Realm} {v w : Value} {ρ : References} {e : Envelope}
  {session : SessionId} {o o' : Object} {id id' : ObjectId} {reference : String}

theorem Session.Le.refl (S : Session) : S.Le S := ⟨fun _ _ h => h, List.prefix_refl _⟩

theorem Session.Le.trans (h : S.Le S') (h' : S'.Le S'') : S.Le S'' :=
  ⟨fun reference w hw => h'.made reference w (h.made reference w hw), h.keys.trans h'.keys⟩

theorem Session.HasMade.mono (h : S.HasMade ρ id id') (hle : S.Le S') : S'.HasMade ρ id id' := by
  obtain ⟨reference, hf, hm⟩ := h
  exact ⟨reference, hf, hle.made reference _ hm⟩

theorem Session.Knows.mono (h : S.Knows r ρ w) (hle : S.Le S') : S'.Knows r ρ w := by
  intro id hw hhost
  obtain ⟨id', hmade⟩ := h id hw hhost
  exact ⟨id', hmade.mono hle⟩

theorem Session.knows_of_isObject (h : w.isObject = false) : S.Knows r ρ w := by
  rintro id rfl
  cases h

theorem Session.HasMade.copyOf (h : S.HasMade ρ id id') : S.copyOf ρ id = id' := by
  obtain ⟨reference, hf, hm⟩ := h
  simp [Session.copyOf, hf, hm]

/-- What holds while a session makes bare objects for the entries of the envelope of `v`. -/
structure Realm.Making (r : Realm) (v : Value) (ρ : References) (e : Envelope)
    (session : SessionId) (r' : Realm) (S : Session) : Prop where
  grows : (r.giving ρ).Grows r'
  session : r'.sessions[session]? = some S
  entries : S.entries = e.entries
  inner : ∀ reference w, S.made.find? reference = some w → ∃ id id', r.Inner v id
    ∧ ρ.objects.find? id = some reference ∧ w = .object id'
  bare : ∀ id id', S.HasMade ρ id id' → r.store.size ≤ id' ∧ ∃ o o', r.store.get id = .ok o
    ∧ r'.store.get id' = .ok o' ∧ o.IsBare r.known (S.copyOf ρ) o'
    ∧ ∀ a i n, o.kind = .bytes a i n → S.Knows r ρ (.object a)
  injective : ∀ id₁ id₂ id', S.HasMade ρ id₁ id' → S.HasMade ρ id₂ id' → id₁ = id₂
  unfinished : ∀ reference ∈ S.unfinished, S.made.find? reference = none

namespace Realm.Making

variable (h : r.Making v ρ e session r' S)
include h

theorem inner_of_hasMade (hρ : ρ.Sound) (hm : S.HasMade ρ id id') : r.Inner v id := by
  obtain ⟨reference, hf, hm⟩ := hm
  obtain ⟨id₁, -, hid₁, hf₁, -⟩ := h.inner reference _ hm
  rwa [hρ.objects id id₁ reference hf hf₁]

/-- Objects of the host stand for themselves. -/
theorem copyOf_host (hρ : ρ.Sound) (hid : r.hostPaths.contains id = true) : S.copyOf ρ id = id := by
  unfold Session.copyOf
  split
  · next id' hm =>
    obtain ⟨reference, hf, hm⟩ := Option.bind_eq_some_iff.mp hm
    have hinner := h.inner_of_hasMade hρ ⟨reference, hf, hm⟩
    exact absurd hinner.2 (by simp [hid])
  · rfl

theorem copyOf_of_le (hρ : ρ.Sound) (h' : r.Making v ρ e session r'' S') (hle : S.Le S')
    (hk : S.Knows r ρ (.object id)) : S'.copyOf ρ id = S.copyOf ρ id := by
  cases hid : r.hostPaths.contains id with
  | true => rw [h.copyOf_host hρ hid, h'.copyOf_host hρ hid]
  | false =>
    obtain ⟨id', hm⟩ := hk id rfl hid
    rw [hm.copyOf, (hm.mono hle).copyOf]

theorem lt_size (hm : S.HasMade ρ id id') : id' < r'.store.size := by
  obtain ⟨-, o, o', -, ho', -, -⟩ := h.bare id id' hm
  exact Store.lt_size_of_get ho'

/-- The realm goes on, and the session stays as it is. -/
theorem grow (hr : r'.Grows r'') (hs : r''.sessions = r'.sessions) :
    r.Making v ρ e session r'' S where
  grows := h.grows.trans hr
  session := hs ▸ h.session
  entries := h.entries
  inner := h.inner
  bare := by
    intro id id' hm
    obtain ⟨hsize, o, o', ho, ho', hbare, hbytes⟩ := h.bare id id' hm
    exact ⟨hsize, o, o', ho, hr.objects id' o' ho', hbare, hbytes⟩
  injective := h.injective
  unfinished := h.unfinished

end Realm.Making

theorem yields_changeSession (f : Session → Session) (r : Realm) :
    Yields (changeSession session f) r () { r with sessions := r.sessions.modify session f } := rfl

theorem yields_sessionAt (h : r.sessions[session]? = some S) : Yields (sessionAt session) r S r := by
  refine (yields_get r).bind ?_
  rw [h]
  exact Yields.pure S r

theorem Realm.grows_push (r : Realm) (o : Object) : r.Grows (r.push o) := (Grows.refl r).push o

/-! ## Steps of a session -/

/-- An object is begun or given up. -/
theorem Realm.Making.changeUnfinished (h : r.Making v ρ e session r' S) (l : List String)
    (hl : ∀ reference ∈ l, S.made.find? reference = none) {f : Session → Session}
    (hf : f S = { S with unfinished := l }) :
    r.Making v ρ e session { r' with sessions := r'.sessions.modify session f }
      { S with unfinished := l } where
  grows := h.grows.withSessions _
  session := by
    simp only [Array.getElem?_modify, if_true, h.session, Option.map_some, hf]
  entries := h.entries
  inner := h.inner
  bare := h.bare
  injective := h.injective
  unfinished := hl

theorem Session.le_insert {l : List String} (hnew : S.made.find? reference = none) :
    S.Le { S with made := S.made.insert reference w, unfinished := l } := by
  constructor
  · intro reference' w' hw'
    rw [Table.find?_insert, if_neg, hw']
    rintro rfl
    rw [hnew] at hw'
    cases hw'
  · rw [Table.keys_insert_of_notMem (Table.find?_eq_none_iff.mp hnew)]
    exact List.prefix_append _ _

/-- An object has been made. -/
theorem Realm.Making.make (h : r.Making v ρ e session r' S) (hρ : ρ.Sound)
    (hsound : r.Sound) (hid : r.Inner v id) (ho : r.store.get id = .ok o)
    (hf : ρ.objects.find? id = some reference) (hnew : S.made.find? reference = none)
    (hbegun : reference ∉ S.unfinished) (hfresh : r.store.size ≤ id')
    (hother : ∀ id, ¬ S.HasMade ρ id id') (ho' : r'.store.get id' = .ok o')
    (hbare : o.IsBare r.known (S.copyOf ρ) o')
    (hbytes : ∀ a i n, o.kind = .bytes a i n → S.Knows r ρ (.object a)) :
    r.Making v ρ e session
      { r' with sessions := r'.sessions.modify session fun s =>
          { s with made := s.made.insert reference (.object id') } }
      { S with made := S.made.insert reference (.object id') } := by
  have hle : S.Le { S with made := S.made.insert reference (.object id') } := Session.le_insert hnew
  have hgrows := h.grows.withSessions (r'.sessions.modify session fun s =>
    { s with made := s.made.insert reference (.object id') })
  -- what has been made is what had been made, or the new object
  have hcases : ∀ id₁ id₂,
      Session.HasMade { S with made := S.made.insert reference (.object id') } ρ id₁ id₂ →
        (id₁ = id ∧ id₂ = id') ∨ S.HasMade ρ id₁ id₂ := by
    rintro id₁ id₂ ⟨reference', hf', hm⟩
    rw [Table.find?_insert] at hm
    split at hm
    · next he =>
      subst he
      cases hm
      exact Or.inl ⟨hρ.objects id₁ id _ hf' hf, rfl⟩
    · exact Or.inr ⟨reference', hf', hm⟩
  -- the new object is none that was known before
  have hcopy : ∀ id₁, S.Knows r ρ (.object id₁) →
      Session.copyOf { S with made := S.made.insert reference (.object id') } ρ id₁
        = S.copyOf ρ id₁ := by
    intro id₁ hk
    by_cases he : id₁ = id
    · subst he
      obtain ⟨id₂, reference', hf', hm⟩ := hk id₁ rfl hid.2
      rw [hf] at hf'
      cases hf'
      rw [hnew] at hm
      cases hm
    · unfold Session.copyOf
      cases hf₁ : ρ.objects.find? id₁ with
      | none => rfl
      | some reference₁ =>
        have hne : ¬ reference = reference₁ := by
          rintro rfl
          exact he (hρ.objects id₁ id _ hf₁ hf)
        simp only [Option.bind_some, Table.find?_insert, if_neg hne]
  have hcongr : ∀ {id₁ : ObjectId} {o o' : Object}, r.store.get id₁ = .ok o →
      o.IsBare r.known (S.copyOf ρ) o' →
        (∀ a i n, o.kind = .bytes a i n → S.Knows r ρ (.object a)) →
          o.IsBare r.known
            (Session.copyOf { S with made := S.made.insert reference (.object id') } ρ) o' :=
    fun ho hb hk => hb.congr (hsound.objects _ _ ho).kind fun a i n ha => hcopy a (hk a i n ha)
  refine ⟨hgrows, ?_, h.entries, ?_, ?_, ?_, ?_⟩
  · simp only [Array.getElem?_modify, if_true, h.session, Option.map_some]
  · intro reference' w hw
    rw [Table.find?_insert] at hw
    split at hw
    · next he =>
      subst he
      cases hw
      exact ⟨id, id', hid, hf, rfl⟩
    · exact h.inner reference' w hw
  · intro id₁ id₂ hm
    rcases hcases id₁ id₂ hm with ⟨rfl, rfl⟩ | hm
    · exact ⟨hfresh, o, o', ho, ho', hcongr ho hbare hbytes,
        fun a i n ha => (hbytes a i n ha).mono hle⟩
    · obtain ⟨hsize, o₁, o₂, ho₁, ho₂, hb, hk⟩ := h.bare id₁ id₂ hm
      exact ⟨hsize, o₁, o₂, ho₁, ho₂, hcongr ho₁ hb hk, fun a i n ha => (hk a i n ha).mono hle⟩
  · intro id₁ id₂ id₃ hm₁ hm₂
    rcases hcases id₁ id₃ hm₁ with ⟨rfl, h₁⟩ | hn₁ <;> rcases hcases id₂ id₃ hm₂ with ⟨h₂, h₃⟩ | hn₂
    · exact h₂.symm
    · exact absurd (h₁ ▸ hn₂) (hother id₂)
    · exact absurd (h₃ ▸ hn₁) (hother id₁)
    · exact h.injective id₁ id₂ id₃ hn₁ hn₂
  · intro reference' hr
    have hne : reference ≠ reference' := by
      rintro rfl
      exact hbegun hr
    rw [Table.find?_insert, if_neg hne]
    exact h.unfinished reference' hr

/-! ## Reading values -/

/-- The object of an entry, once its bare object can be made. -/
theorem yields_resolveEntry [Machine] (h : r.Making v ρ e session r' S) (hρ : ρ.Sound)
    (hsound : r.Sound) (hid : r.Inner v id) (ho : r.store.get id = .ok o)
    (hf : ρ.objects.find? id = some reference)
    (hentry : e.entries.find? reference = some (r.writtenEntry ρ o))
    (hbegun : reference ∉ S.unfinished)
    (hmake : ∀ r₁, r.Making v ρ e session r₁ { S with unfinished := reference :: S.unfinished } →
      S.made.find? reference = none →
      ∃ r₂ S₂ o', Yields (bareEntry session (r.writtenEntry ρ o)) r₁ (.object r₂.store.size)
          (r₂.push o')
        ∧ r.Making v ρ e session r₂ S₂ ∧ S.Le S₂
        ∧ S₂.unfinished = reference :: S.unfinished ∧ o.IsBare r.known (S₂.copyOf ρ) o'
        ∧ ∀ a i n, o.kind = .bytes a i n → S₂.Knows r ρ (.object a)) :
    ∃ r'' S', Yields (resolveEntry session reference) r' (.object (S'.copyOf ρ id)) r''
      ∧ r.Making v ρ e session r'' S' ∧ S.Le S' ∧ S'.unfinished = S.unfinished
      ∧ S'.Knows r ρ (.object id) := by
  cases hm : S.made.find? reference with
  | some w =>
    obtain ⟨id₁, id', hid₁, hf₁, rfl⟩ := h.inner reference w hm
    obtain rfl := hρ.objects id id₁ reference hf hf₁
    have hmade : S.HasMade ρ id id' := ⟨reference, hf, hm⟩
    refine ⟨r', S, ?_, h, Session.Le.refl S, rfl, ?_⟩
    · refine (yields_sessionAt h.session).bind ?_
      rw [hm, hmade.copyOf]
      exact Yields.pure _ r'
    · rintro id₂ h₂ -
      cases h₂
      exact ⟨id', hmade⟩
  | none =>
    have hnone : ∀ reference' ∈ reference :: S.unfinished, S.made.find? reference' = none := by
      intro reference' hr
      rcases List.mem_cons.mp hr with rfl | hr
      · exact hm
      · exact h.unfinished reference' hr
    have h₁ := h.changeUnfinished (f := fun s => { s with unfinished := reference :: s.unfinished })
      (reference :: S.unfinished) hnone rfl
    obtain ⟨r₂, S₂, o', hy, h₂, hle, hun, hbare, hbytes⟩ := hmake _ h₁ hm
    have hun' : S₂.unfinished.erase reference = S.unfinished := by
      rw [hun, List.erase_cons_head]
    have hnew : S₂.made.find? reference = none :=
      h₂.unfinished reference (by rw [hun]; exact List.mem_cons_self)
    have hpush : r.Making v ρ e session (r₂.push o') S₂ := h₂.grow (Realm.grows_push r₂ o') rfl
    have h₃ := hpush.changeUnfinished
      (f := fun s => { s with unfinished := s.unfinished.erase reference }) S.unfinished
      (fun reference' hr => h₂.unfinished reference' (by rw [hun]; exact List.mem_cons_of_mem _ hr))
      (by rw [hun'])
    have h₄ := h₃.make hρ hsound hid ho hf hnew hbegun
      (show r.store.size ≤ r₂.store.size from h₂.grows.size)
      (fun id₁ hmade => absurd (h₂.lt_size hmade) (lt_irrefl _))
      (Store.get_push_size o') hbare hbytes
    have hmade : Session.HasMade
        { S₂ with unfinished := S.unfinished,
                  made := S₂.made.insert reference (.object r₂.store.size) } ρ id r₂.store.size :=
      ⟨reference, hf, by rw [Table.find?_insert, if_pos rfl]⟩
    refine ⟨_, _, ?_, h₄, hle.trans (Session.le_insert hnew), rfl, ?_⟩
    · refine (yields_sessionAt h.session).bind ?_
      have hcontains : S.unfinished.contains reference = false := by simpa using hbegun
      rw [hm, h.entries, hentry, hcontains, hmade.copyOf]
      refine (yields_changeSession _ r').bind (hy.attempt.bind ((yields_changeSession _ _).bind ?_))
      exact (yields_ofExcept _ _).bind ((yields_changeSession _ _).bind (Yields.pure _ _))
    · rintro id₂ h₂ -
      cases h₂
      exact ⟨_, hmade⟩

/-- What reading the envelope of a value rests on. Paths need the depth `n`. -/
structure Realm.CanResume (r : Realm) (v : Value) (ρ : References) (e : Envelope) (n : ℕ) :
    Prop where
  sound : r.Sound
  data : r.IsDataGraph v
  numbers : r.KeepsNumbers v
  written : r.IsWrittenAs v ρ e
  hosts : ∀ id, r.hostPaths.contains id = true → ∃ o, r.store.get id = .ok o
  paths : r.LeadsFrom n

/-- The action reads the value and leaves what has been made in order. -/
def Realm.Reads (r : Realm) (v : Value) (ρ : References) (e : Envelope) (session : SessionId)
    (action : Run Value) (w : Value) (r' : Realm) (S : Session) : Prop :=
  ∃ r'' S', Yields action r' (w.map (S'.copyOf ρ)) r'' ∧ r.Making v ρ e session r'' S' ∧ S.Le S'
    ∧ S'.unfinished = S.unfinished ∧ S'.Knows r ρ w

variable {n d : ℕ}

/-- A value is read, if its bare object can be made. -/
theorem yields_resolveTagged (hsound : r.Sound) (hgraph : r.IsInertGraph v)
    (hwritten : r.IsWrittenAs v ρ e) (hpaths : r.LeadsFrom n) (hd : n ≤ d)
    (h : r.Making v ρ e session r' S) (hw : r.IsReadable v ρ w)
    (hmake : ∀ id o reference, w = .object id → r.Inner v id → r.store.get id = .ok o →
      ρ.objects.find? id = some reference → reference ∉ S.unfinished
      ∧ ∀ r₁, r.Making v ρ e session r₁ { S with unfinished := reference :: S.unfinished } →
        S.made.find? reference = none →
        ∃ r₂ S₂ o', Yields (@bareEntry (engine d) session (r.writtenEntry ρ o)) r₁
            (.object r₂.store.size) (r₂.push o')
          ∧ r.Making v ρ e session r₂ S₂ ∧ S.Le S₂
          ∧ S₂.unfinished = reference :: S.unfinished ∧ o.IsBare r.known (S₂.copyOf ρ) o'
          ∧ ∀ a i n, o.kind = .bytes a i n → S₂.Knows r ρ (.object a)) :
    r.Reads v ρ e session (@resolveTagged (engine d) session (r.written ρ w)) w r' S := by
  let _ : Machine := engine d
  have hρ := hwritten.sound
  cases ho : w.isObject with
  | false =>
    refine ⟨r', S, ?_, h, Session.Le.refl S, rfl, Session.knows_of_isObject ho⟩
    rw [map_eq_of_isObject ho]
    exact yields_resolve_primitive hρ h.grows hw ho
  | true =>
    obtain ⟨id, rfl⟩ : ∃ id, w = .object id := by
      cases w <;> first | exact ⟨_, rfl⟩ | cases ho
    cases hhost : r.hostPaths.contains id with
    | true =>
      obtain ⟨r'', hy, hgrows, hsessions⟩ :=
        yields_resolve_host session hpaths hd hwritten.le h.grows hhost
      refine ⟨r'', S, ?_, h.grow hgrows hsessions, Session.Le.refl S, rfl, ?_⟩
      · rw [Value.map, h.copyOf_host hρ hhost]
        exact hy
      · intro id₁ h₁ hf
        cases h₁
        rw [hhost] at hf
        cases hf
    | false =>
      have hid : r.Inner v id := ⟨hw, hhost⟩
      obtain ⟨o, ho⟩ := hgraph.found id hid.1
      obtain ⟨reference, hf, hentry⟩ := hwritten.entry id o hid ho
      obtain ⟨hbegun, hmake⟩ := hmake id o reference rfl hid ho hf
      have hplace : r.written ρ (.object id) = .entry reference := by
        have hpath : r.hostPaths.pathOf? id = none := Table.contains_eq_false_iff.mp hhost
        simp only [Realm.written, hpath, hf, Option.getD_some]
      rw [hplace]
      exact yields_resolveEntry h hρ hsound hid ho hf hentry hbegun hmake

/-- A value that is no window is read. -/
theorem yields_resolve_of_ne_bytes (hc : r.CanResume v ρ e n) (hd : n ≤ d + 1)
    (h : r.Making v ρ e session r' S) (hw : r.IsReadable v ρ w)
    (hbegun : ∀ id reference, w = .object id → ρ.objects.find? id = some reference →
      reference ∉ S.unfinished)
    (hbytes : ∀ id o a i m, w = .object id → r.store.get id = .ok o → o.kind ≠ .bytes a i m) :
    r.Reads v ρ e session (@resolveTagged (engine (d + 1)) session (r.written ρ w)) w r' S := by
  refine yields_resolveTagged hc.sound hc.data.isInertGraph hc.written hc.paths hd h hw
    fun id o reference hwid hid ho hf => ⟨hbegun id reference hwid hf, fun r₁ h₁ _ => ?_⟩
  have hnot : ∀ a i m, o.kind ≠ .bytes a i m := fun a i m => hbytes id o a i m hwid ho
  obtain ⟨o', hbare, hy⟩ := yields_bareEntry session (d := d) (v := v)
    (f := Session.copyOf { S with unfinished := reference :: S.unfinished } ρ) hc.written.sound
    h₁.grows hc.sound.types (hc.data.data id o hid ho) (hc.sound.objects id o ho).kind
    (fun u hu => hc.written.isReadable_refers hc.data hc.numbers hid ho
      (o.kind_values_mem_refers hu))
    (fun x hx => hc.numbers.times id o x hid ho hx) hnot
  exact ⟨r₁, _, o', hy, h₁, ⟨fun _ _ h => h, List.prefix_refl _⟩, rfl, hbare,
    fun a i m ha => absurd ha (hnot a i m)⟩

/-- The buffer that stands for a buffer has its content. -/
theorem Realm.Making.buffer (h : r.Making v ρ e session r' S) (hρ : ρ.Sound) {a : ObjectId}
    {b : Buffer} (ho : r.store.get a = .ok o) (hb : o.kind = .buffer b)
    (hk : S.Knows r ρ (.object a)) :
    ∃ o', r'.store.get (S.copyOf ρ a) = .ok o' ∧ o'.kind = .buffer b := by
  cases hhost : r.hostPaths.contains a with
  | true =>
    rw [h.copyOf_host hρ hhost]
    exact ⟨o, h.grows.objects a o ho, hb⟩
  | false =>
    obtain ⟨a', hmade⟩ := hk a rfl hhost
    obtain ⟨-, o₁, o', ho₁, ho', hbare, -⟩ := h.bare a a' hmade
    rw [ho] at ho₁
    cases ho₁
    rw [hmade.copyOf]
    have hkind := hbare.kind
    rw [hb] at hkind
    refine ⟨o', ho', ?_⟩
    cases hk' : o'.kind <;> rw [hk'] at hkind <;> first | exact hkind.elim | skip
    rw [show _ = b from hkind]

/-- **Every value of the graph is read**, and its object is made. -/
theorem yields_resolve (hc : r.CanResume v ρ e n) (hd : n ≤ d)
    (h : r.Making v ρ e session r' S) (hw : r.IsReadable v ρ w) (hun : S.unfinished = []) :
    r.Reads v ρ e session (@resolve (engine (d + 3)) session (r.written ρ w)) w r' S := by
  have hρ := hc.written.sound
  by_cases hbytes : ∃ id o a i m, w = .object id ∧ r.store.get id = .ok o ∧ o.kind = .bytes a i m
  · obtain ⟨id, o, a, i, m, rfl, ho, hk⟩ := hbytes
    refine yields_resolveTagged (d := d + 2) hc.sound hc.data.isInertGraph hc.written hc.paths
      (by omega) h hw fun id₁ o₁ reference h₁ hid ho₁ hf => ?_
    cases h₁
    rw [ho] at ho₁
    cases ho₁
    have hdata := hc.data.data id o hid ho
    have hwindow := hdata
    rw [hk] at hwindow
    obtain ⟨o₂, b, ho₂, hb, hsize⟩ := hwindow
    have hheld : r.Holds v (.object a) := .step hid.1 hid.2 ho
      (Object.mem_values_iff.mpr (Or.inr (Or.inr (by rw [hk]; exact List.mem_singleton_self _))))
    refine ⟨by rw [hun]; exact List.not_mem_nil, fun r₁ h₁ _ => ?_⟩
    -- the buffer is another object than the window that is being made
    obtain ⟨r₂, S₂, hy, h₂, hle, hun₂, hknows⟩ := yields_resolve_of_ne_bytes (d := d)
      (w := .object a) hc (by omega) h₁ hheld (by
        intro a' reference' ha hf' hr
        cases ha
        simp only [hun, List.mem_singleton] at hr
        subst hr
        obtain rfl := hρ.objects id a _ hf hf'
        rw [ho] at ho₂
        cases ho₂
        rw [hk] at hb
        cases hb) (by
        intro a' o' a'' i' m' ha ho' hk'
        cases ha
        rw [ho₂] at ho'
        cases ho'
        rw [hb] at hk'
        cases hk')
    obtain ⟨o', ho', hb'⟩ := h₂.buffer hρ ho₂ hb hknows
    have hy' : Yields (@resolve (engine (d + 2)) session (r.written ρ (.object a))) r₁
        (.object (S₂.copyOf ρ a)) r₂ := hy
    let _ : Machine := engine (d + 2)
    obtain ⟨o₃, hbare, hy₃⟩ := yields_bareEntry_bytes hdata hk
      (h₁.grows.types.trans hc.sound.types) h₂.grows.known hy' ho' hb' hsize
    refine ⟨r₂, S₂, o₃, hy₃, h₂, ⟨hle.made, hle.keys⟩, hun₂, hbare, fun a' i' m' ha => ?_⟩
    rw [hk] at ha
    cases ha
    exact hknows
  · refine yields_resolve_of_ne_bytes (d := d + 1) hc (by omega) h hw
      (fun _ _ _ _ => by rw [hun]; exact List.not_mem_nil) ?_
    intro id o a i m hid ho hk
    exact hbytes ⟨id, o, a, i, m, hid, ho, hk⟩

end Stasis
