import Mathlib
import Stasis.Builtin.Binary
import Stasis.Proofs.Graph
import Stasis.Proofs.Integrity

/-!
# How stores evolve

What an object holds besides its properties changes in few ways: collections get and lose entries, a
buffer is resized, written to or emptied, a promise is settled, and a class learns its fields. Everything
else stays what it was made as. Neither that nor a change of properties makes an object ill formed.

* `Buffer.Step`, `Kind.Step`: one change of a buffer, and of what an object holds.
* `Buffer.Becomes`, `Kind.Becomes`: any number of them.
* `Object.Sound.define`, …, `Object.Sound.withKind`: a sound object stays sound.
* `Store.Evolves`: what objects hold has become something else by such changes, and all objects are sound.
* `Store.evolves_push`, `Store.evolves_set`: a new object, and a change of one.
* `Store.Since`: a store that has evolved from one of which something is known.
-/

namespace Stasis

/-! ## Buffers -/

namespace Buffer

/-- The buffer holds no more bytes than its limit allows. -/
def Fits (b : Buffer) : Prop := ∀ max, b.maxLength = some max → b.bytes.size ≤ max

/-- A buffer that is detached holds no bytes. -/
def IsEmptied (b : Buffer) : Prop := b.detached = true → b.bytes.size = 0

/-- One change of a buffer. -/
inductive Step (b : Buffer) : Buffer → Prop
  | resized (length : ℕ) (h : ∀ max, b.maxLength = some max → length ≤ max) : Step b (b.resized length)
  | emptied : Step b { b with bytes := ByteArray.empty, detached := true }
  | written (i : ℕ) (byte : UInt8) : Step b { b with bytes := b.bytes.set! i byte }

/-- What a buffer becomes, in any number of steps. -/
def Becomes : Buffer → Buffer → Prop := Relation.ReflTransGen Step

variable {b b' : Buffer}

@[simp]
theorem size_resized (b : Buffer) (length : ℕ) : (b.resized length).bytes.size = length :=
  Array.size_ofFn

theorem size_written (bytes : ByteArray) (i : ℕ) (byte : UInt8) : (bytes.set! i byte).size = bytes.size :=
  Array.size_setIfInBounds

/-- The limit stays what it is. -/
theorem Step.maxLength (h : b.Step b') : b'.maxLength = b.maxLength := by
  cases h <;> rfl

theorem Step.fits (h : b.Step b') (hb : b.Fits) : b'.Fits := by
  intro max hmax
  rw [h.maxLength] at hmax
  cases h with
  | resized length h => exact (b.size_resized length).trans_le (h max hmax)
  | emptied => exact Nat.zero_le max
  | written i byte => exact (size_written b.bytes i byte).trans_le (hb max hmax)

/-- A buffer is never attached again. -/
theorem Step.detached (h : b.Step b') (hb : b.detached = true) : b'.detached = true := by
  cases h with
  | emptied => rfl
  | _ => exact hb

/-- **A detached buffer gets bytes by being resized only.** -/
theorem Step.isEmptied (h : b.Step b') (hb : b.IsEmptied) :
    b'.IsEmptied ∨ b.detached = true ∧ ∃ length, b' = b.resized length := by
  cases h with
  | resized length =>
    by_cases hd : b.detached = true
    · exact .inr ⟨hd, length, rfl⟩
    · exact .inl fun hd' => absurd hd' hd
  | emptied => exact .inl fun _ => rfl
  | written i byte => exact .inl fun hd => (size_written b.bytes i byte).trans (hb hd)

/-- A buffer that has been detached is given a byte. -/
example : ¬ (Buffer.resized { detached := true } 1).IsEmptied := by simp [IsEmptied, resized, ByteArray.size]

theorem Becomes.maxLength (h : b.Becomes b') : b'.maxLength = b.maxLength := by
  induction h with
  | refl => rfl
  | tail _ hstep ih => exact hstep.maxLength.trans ih

theorem Becomes.detached (h : b.Becomes b') (hb : b.detached = true) : b'.detached = true := by
  induction h with
  | refl => exact hb
  | tail _ hstep ih => exact hstep.detached ih

theorem fits_of_maxLength_eq_none (h : b.maxLength = none) : b.Fits := by
  intro max hmax
  rw [h] at hmax
  cases hmax

/-- A buffer of a length that its limit allows. -/
theorem fits_resized {length : ℕ} (h : ∀ max, b.maxLength = some max → length ≤ max) :
    (b.resized length).Fits :=
  fun max hmax => (b.size_resized length).trans_le (h max hmax)

end Buffer

/-! ## What objects hold -/

/-- The key of a value is that of the value it gives back. -/
theorem CollectionKey.ofValue_toValue_ofValue (v : Value) : ofValue (ofValue v).toValue = ofValue v := by
  cases v with
  | number x =>
    simp only [ofValue, toValue]
    by_cases hnan : x.isNaN = true
    · rw [if_pos hnan]
      decide +kernel
    · rw [if_neg hnan]
      by_cases hzero : (x == 0) = true
      · rw [if_pos hzero]
        decide +kernel
      · rw [if_neg hzero, Float.ofBits_toBits, if_neg hnan, if_neg hzero]
  | _ => rfl

/-- The keys of a collection are keys of values. -/
def Table.HasKeys {α : Type} (t : Table CollectionKey α) : Prop :=
  ∀ k ∈ t.keys, CollectionKey.ofValue k.toValue = k

section HasKeys

variable {α : Type} {t : Table CollectionKey α}

theorem Table.hasKeys_empty : (∅ : Table CollectionKey α).HasKeys := nofun

theorem Table.HasKeys.insert (h : t.HasKeys) (v : Value) (a : α) :
    (t.insert (CollectionKey.ofValue v) a).HasKeys := by
  intro k hk
  rw [Table.keys_insert] at hk
  split at hk
  · exact h k hk
  · rcases List.mem_append.mp hk with hk | hk
    · exact h k hk
    · rw [List.mem_singleton.mp hk]
      exact CollectionKey.ofValue_toValue_ofValue v

theorem Table.HasKeys.erase (h : t.HasKeys) (key : CollectionKey) : (t.erase key).HasKeys := by
  intro k hk
  rw [Table.keys_erase] at hk
  exact h k (List.mem_of_mem_filter hk)

end HasKeys

namespace Kind

/-- One change of what an object holds. -/
inductive Step : Kind → Kind → Prop
  | map {entries entries' : Table CollectionKey Value} (h : entries'.HasKeys) :
    Step (.map entries) (.map entries')
  | set {elements elements' : Table CollectionKey Unit} (h : elements'.HasKeys) :
    Step (.set elements) (.set elements')
  | buffer {b b' : Buffer} (h : b.Step b') : Step (.buffer b) (.buffer b')
  | promise (state state' : PromiseState) : Step (.promise state) (.promise state')
  | «class» (node : Script.ClassDef) (env : EnvId) (derived : Bool) (fields fields' : List FieldInit) :
    Step (.function (.class node env fields derived)) (.function (.class node env fields' derived))

/-- What an object comes to hold, in any number of steps. -/
def Becomes : Kind → Kind → Prop := Relation.ReflTransGen Step

variable {k k' k'' : Kind}

theorem Becomes.refl (k : Kind) : k.Becomes k := Relation.ReflTransGen.refl

theorem Becomes.trans (h : k.Becomes k') (h' : k'.Becomes k'') : k.Becomes k'' :=
  Relation.ReflTransGen.trans h h'

theorem Step.becomes (h : k.Step k') : k.Becomes k' := Relation.ReflTransGen.single h

theorem Step.sound (h : k.Step k') (hk : k.Sound) : k'.Sound := by
  cases h with
  | map h => exact h
  | set h => exact h
  | buffer h => exact h.fits hk
  | promise => trivial
  | «class» => trivial

/-- What has the name of its kind and no step is left as it is. -/
theorem Step.label (h : k.Step k') : k'.label = k.label := by
  cases h <;> rfl

theorem Becomes.label (h : k.Becomes k') : k'.label = k.label := by
  induction h with
  | refl => rfl
  | tail _ hstep ih => exact hstep.label.trans ih

theorem isFunction_eq (k : Kind) : k.isFunction = (k.label == "Function") := by
  cases k <;> rfl

theorem Becomes.isFunction (h : k.Becomes k') : k'.isFunction = k.isFunction := by
  rw [isFunction_eq, isFunction_eq, h.label]

theorem Becomes.map {entries entries' : Table CollectionKey Value} (h : (Kind.map entries).Becomes k)
    (hkeys : entries'.HasKeys) : k.Step (.map entries') := by
  suffices hmap : ∃ present, k = .map present by
    obtain ⟨present, rfl⟩ := hmap
    exact .map hkeys
  induction h with
  | refl => exact ⟨entries, rfl⟩
  | tail _ hstep ih =>
    obtain ⟨present, rfl⟩ := ih
    cases hstep with
    | map => exact ⟨_, rfl⟩

theorem Becomes.set {elements elements' : Table CollectionKey Unit} (h : (Kind.set elements).Becomes k)
    (hkeys : elements'.HasKeys) : k.Step (.set elements') := by
  suffices hset : ∃ present, k = .set present by
    obtain ⟨present, rfl⟩ := hset
    exact .set hkeys
  induction h with
  | refl => exact ⟨elements, rfl⟩
  | tail _ hstep ih =>
    obtain ⟨present, rfl⟩ := ih
    cases hstep with
    | set => exact ⟨_, rfl⟩

theorem Becomes.promise {state : PromiseState} (h : (Kind.promise state).Becomes k)
    (state' : PromiseState) : k.Step (.promise state') := by
  suffices hpromise : ∃ present, k = .promise present by
    obtain ⟨present, rfl⟩ := hpromise
    exact .promise present state'
  induction h with
  | refl => exact ⟨state, rfl⟩
  | tail _ hstep ih =>
    obtain ⟨present, rfl⟩ := ih
    cases hstep with
    | promise => exact ⟨_, rfl⟩

theorem Becomes.buffer {b : Buffer} (h : (Kind.buffer b).Becomes k) :
    ∃ b', k = .buffer b' ∧ b.Becomes b' := by
  induction h with
  | refl => exact ⟨b, rfl, .refl⟩
  | tail _ hstep ih =>
    obtain ⟨b', rfl, hb⟩ := ih
    cases hstep with
    | buffer h => exact ⟨_, rfl, hb.tail h⟩

theorem Becomes.class {node : Script.ClassDef} {env : EnvId} {derived : Bool} {fields : List FieldInit}
    (h : (Kind.function (.class node env fields derived)).Becomes k) :
    ∃ fields', k = .function (.class node env fields' derived) := by
  induction h with
  | refl => exact ⟨fields, rfl⟩
  | tail _ hstep ih =>
    obtain ⟨fields', rfl⟩ := ih
    cases hstep with
    | «class» => exact ⟨_, rfl⟩

end Kind

/-! ## Sound objects -/

/-- A property with a value. -/
theorem Descriptor.Sound.of_isData {s : Store} {d : Descriptor} (h : d.isData = true) : d.Sound s := by
  cases d with
  | data => trivial
  | accessor => cases h

theorem Descriptor.Sound.mono {s s' : Store} {d : Descriptor} (h : d.Sound s)
    (hkept : ∀ id, s.isFunction id = true → s'.isFunction id = true) : d.Sound s' := by
  cases d with
  | data => trivial
  | accessor => exact fun f hf => hkept f (h f hf)

namespace Object

variable {s s' : Store} {o o' u : Object} {key : Key} {d : Descriptor}

theorem Sound.mono (h : o.Sound s) (hkept : ∀ id, s.isFunction id = true → s'.isFunction id = true) :
    o.Sound s' :=
  ⟨h.kind, fun d hd => (h.properties d hd).mono hkept, h.array⟩

/-- An object of any kind but an array, before it has properties. -/
theorem Sound.new (prototype : Option ObjectId) {kind : Kind} (hkind : kind.Sound)
    (harray : kind.isArray = false) : Object.Sound s { prototype, kind } where
  kind := hkind
  properties := nofun
  array h := by
    cases h
    cases harray

/-- Only properties are of another object. -/
theorem Sound.withProperties (h : o.Sound s) {properties : Table Key Descriptor}
    (hproperties : ∀ d ∈ properties.values, d.Sound s)
    (harray : o.BeginsWithLength → { o with properties }.BeginsWithLength) :
    Object.Sound s { o with properties } :=
  ⟨h.kind, hproperties, fun ha => harray (h.array ha)⟩

theorem Sound.withKind (h : o.Sound s) {kind : Kind} (hstep : o.kind.Step kind) :
    Object.Sound s { o with kind } where
  kind := hstep.sound h.kind
  properties := h.properties
  array ha := by
    have hother : ∀ k : Kind, ¬ k.Step .array := by
      rintro k ⟨⟩
    obtain rfl : kind = .array := ha
    exact absurd hstep (hother o.kind)

/-! ### The length of an array stays first -/

theorem BeginsWithLength.own? (h : o.BeginsWithLength) :
    ∃ v w, o.own? .length = some (.data v w false false) := by
  obtain ⟨v, w, rest, hentries⟩ := h
  exact ⟨v, w, Table.find?_eq_some_iff.mpr (hentries ▸ List.mem_cons_self)⟩

theorem BeginsWithLength.insert (h : o.BeginsWithLength)
    (hlength : key = .length → ∃ v w, d = .data v w false false) :
    { o with properties := o.properties.insert key d }.BeginsWithLength := by
  obtain ⟨v, w, rest, hentries⟩ := h
  have hinsert : (o.properties.insert key d).entries = insertIn key d o.properties.entries := rfl
  rw [hentries, insertIn] at hinsert
  split at hinsert
  · next hkey =>
    obtain ⟨v', w', rfl⟩ := hlength hkey.symm
    exact ⟨v', w', rest, hinsert⟩
  · exact ⟨v, w, _, hinsert⟩

theorem BeginsWithLength.filter (h : o.BeginsWithLength) {p : Key → Descriptor → Bool}
    (hp : ∀ v w, p .length (.data v w false false) = true) :
    { o with properties := o.properties.filter p }.BeginsWithLength := by
  obtain ⟨v, w, rest, hentries⟩ := h
  refine ⟨v, w, rest.filter fun q => p q.1 q.2, ?_⟩
  show o.properties.entries.filter _ = _
  rw [hentries]
  exact List.filter_cons_of_pos (hp v w)

theorem BeginsWithLength.map (h : o.BeginsWithLength) {f : Descriptor → Descriptor}
    (hf : ∀ v w, ∃ v' w', f (.data v w false false) = .data v' w' false false) :
    { o with properties := o.properties.map f }.BeginsWithLength := by
  obtain ⟨v, w, rest, hentries⟩ := h
  obtain ⟨v', w', hf⟩ := hf v w
  refine ⟨v', w', rest.map fun q => (q.1, f q.2), ?_⟩
  show o.properties.entries.map _ = _
  rw [hentries, List.map_cons, ← hf]

/-- The length stays a value that can neither be enumerated nor taken out. -/
theorem BeginsWithLength.of_allows (h : o.BeginsWithLength) (hallows : o.allows .length d = true) :
    ∃ v w, d = .data v w false false := by
  obtain ⟨v, w, hown⟩ := h.own?
  unfold allows at hallows
  rw [hown] at hallows
  have hhardens := Descriptor.hardens_of_allows (d := .data v w false false) rfl hallows
  cases d with
  | data v' w' e c =>
    obtain ⟨rfl, rfl, -⟩ := hhardens
    exact ⟨v', w', rfl⟩
  | accessor => exact hhardens.elim

theorem BeginsWithLength.prepares (h : o.BeginsWithLength) (hu : o.Prepares u) : u.BeginsWithLength := by
  cases hu with
  | same => exact h
  | lengthened found w =>
    refine h.insert fun _ => ?_
    obtain ⟨v, w', hown⟩ := h.own?
    cases hown.symm.trans found
    exact ⟨w, true, rfl⟩
  | truncated n => exact h.filter fun _ _ => rfl

/-! ### Changes of properties -/

theorem mem_values_insert {t : Table Key Descriptor} {d' : Descriptor} (h : d' ∈ (t.insert key d).values) :
    d' = d ∨ d' ∈ t.values := by
  obtain ⟨⟨k, d''⟩, hmem, rfl⟩ := List.mem_map.mp h
  have hfind := Table.find?_eq_some_iff.mpr hmem
  rw [Table.find?_insert] at hfind
  split at hfind
  · exact .inl (Option.some.inj hfind).symm
  · exact .inr (List.mem_map_of_mem (Table.find?_eq_some_iff.mp hfind))

theorem mem_values_filter {t : Table Key Descriptor} {p : Key → Descriptor → Bool} {d' : Descriptor}
    (h : d' ∈ (t.filter p).values) : d' ∈ t.values := by
  obtain ⟨q, hmem, rfl⟩ := List.mem_map.mp h
  exact List.mem_map_of_mem (List.mem_of_mem_filter hmem)

theorem Sound.own? (h : o.Sound s) (hd : o.own? key = some d) : d.Sound s :=
  h.properties d (List.mem_map_of_mem (Table.find?_eq_some_iff.mp hd))

theorem Sound.prepares (h : o.Sound s) (hu : o.Prepares u) : u.Sound s := by
  have hkind := hu.kind
  refine ⟨hkind ▸ h.kind, fun d hd => ?_, fun ha => (h.array (hkind ▸ ha)).prepares hu⟩
  cases hu with
  | same => exact h.properties d hd
  | lengthened =>
    rcases mem_values_insert hd with rfl | hd
    · trivial
    · exact h.properties d hd
  | truncated => exact h.properties d (mem_values_filter hd)

/-- Defining a property, be it refused or not. -/
theorem Sound.define (h : o.Sound s) (hd : d.Sound s) : (o.define key d).1.Sound s := by
  rw [define_eq]
  split
  · next o' hdefine =>
    obtain ⟨hallows, u, hu, rfl⟩ := define?_cases hdefine
    have hsound := h.prepares hu
    refine ⟨hsound.kind, fun d' hd' => ?_, fun ha => (hsound.array ha).insert ?_⟩
    · rcases mem_values_insert hd' with rfl | hd'
      · exact hd
      · exact hsound.properties d' hd'
    · rintro rfl
      exact (h.array (hu.kind ▸ ha)).of_allows hallows
  · exact h

/-- Taking a property out, be it refused or not. -/
theorem Sound.delete (h : o.Sound s) : (o.delete key).1.Sound s := by
  unfold Object.delete
  split
  · exact h
  · next d hd =>
    split
    · next hc =>
      refine h.withProperties (fun d' hd' => h.properties d' (mem_values_filter hd'))
        fun hbegin => hbegin.filter fun v w => ?_
      rw [decide_eq_true_iff]
      rintro rfl
      obtain ⟨v', w', hown⟩ := hbegin.own?
      cases hown.symm.trans hd
      cases hc
    · exact h

/-- Every property changes in a way that leaves the halves of accessors as they are. -/
theorem Sound.mapProperties (h : o.Sound s) {f : Descriptor → Descriptor}
    (hf : ∀ d : Descriptor, d.Sound s → (f d).Sound s)
    (hlength : ∀ v w, ∃ v' w', f (.data v w false false) = .data v' w' false false) :
    Object.Sound s { o with extensible := false, properties := o.properties.map f } := by
  refine ⟨h.kind, fun d hd => ?_, fun ha => (h.array ha).map hlength⟩
  obtain ⟨⟨k, d'⟩, hmem, rfl⟩ := List.mem_map.mp hd
  obtain ⟨⟨k', d''⟩, hmem', heq⟩ := List.mem_map.mp hmem
  cases heq
  exact hf d'' (h.properties d'' (List.mem_map_of_mem hmem'))

theorem Sound.sealed (h : o.Sound s) : o.sealed.Sound s :=
  h.mapProperties (fun d hd => by cases d <;> exact hd) fun v w => ⟨v, w, rfl⟩

theorem Sound.frozen (h : o.Sound s) : o.frozen.Sound s :=
  h.mapProperties (fun d hd => by cases d <;> exact hd) fun v _ => ⟨v, false, rfl⟩

end Object

/-! ## Stores -/

namespace Store

/-- What an object holds besides properties. -/
def HasKind (s : Store) (id : ObjectId) (k : Kind) : Prop := ∃ o, s.get id = .ok o ∧ o.kind = k

/-- Every object of the first store is in the second one, holding what it has become, and all objects
there are sound. -/
structure Evolves (s s' : Store) : Prop where
  becomes : ∀ id k, s.HasKind id k → ∃ k', s'.HasKind id k' ∧ k.Becomes k'
  sound : s'.Sound

variable {s s' s'' : Store} {id : ObjectId} {o o' : Object} {k k' : Kind}

theorem HasKind.eq (h : s.HasKind id k) (h' : s.HasKind id k') : k = k' := by
  obtain ⟨o, ho, rfl⟩ := h
  obtain ⟨o', ho', rfl⟩ := h'
  cases ho.symm.trans ho'
  rfl

theorem isFunction_iff : s.isFunction id = true ↔ ∃ k, s.HasKind id k ∧ k.isFunction = true := by
  unfold isFunction
  rw [Option.any_eq_true]
  refine ⟨fun ⟨o, ho, hf⟩ => ⟨o.kind, ⟨o, get_eq_ok_iff.mpr ho, rfl⟩, hf⟩, ?_⟩
  rintro ⟨k, ⟨o, ho, rfl⟩, hf⟩
  exact ⟨o, get_eq_ok_iff.mp ho, hf⟩

/-- Half of an accessor: a function, or nothing. -/
def IsHalf (s : Store) (f : Option ObjectId) : Prop := ∀ g ∈ f.toList, s.isFunction g = true

theorem isHalf_some : s.IsHalf (some id) ↔ s.isFunction id = true := by
  simp [IsHalf]

theorem isHalf_none : s.IsHalf none := nofun

theorem sound_accessor {g h : Option ObjectId} {e c : Bool} :
    (Descriptor.accessor g h e c).Sound s ↔ s.IsHalf g ∧ s.IsHalf h := by
  unfold Descriptor.Sound IsHalf
  simp only [List.mem_append, or_imp, forall_and]

theorem Evolves.refl (hs : s.Sound) : s.Evolves s := ⟨fun _ k hk => ⟨k, hk, .refl k⟩, hs⟩

theorem Evolves.trans (h : s.Evolves s') (h' : s'.Evolves s'') : s.Evolves s'' where
  becomes id k hk := by
    obtain ⟨k', hk', hbecomes⟩ := h.becomes id k hk
    obtain ⟨k'', hk'', hbecomes'⟩ := h'.becomes id k' hk'
    exact ⟨k'', hk'', hbecomes.trans hbecomes'⟩
  sound := h'.sound

/-- **A function stays a function.** -/
theorem Evolves.isFunction (h : s.Evolves s') (hf : s.isFunction id = true) : s'.isFunction id = true := by
  obtain ⟨k, hk, hf⟩ := isFunction_iff.mp hf
  obtain ⟨k', hk', hbecomes⟩ := h.becomes id k hk
  exact isFunction_iff.mpr ⟨k', hk', hbecomes.isFunction.trans hf⟩

theorem Evolves.descriptor {d : Descriptor} (h : s.Evolves s') (hd : d.Sound s) : d.Sound s' :=
  hd.mono fun _ => h.isFunction

theorem HasKind.push (h : s.HasKind id k) (o : Object) : HasKind ⟨s.objects.push o⟩ id k := by
  obtain ⟨u, hu, hk⟩ := h
  exact ⟨u, get_push hu, hk⟩

/-- An object is added. -/
theorem evolves_push (hs : s.Sound) (ho : o.Sound s) : s.Evolves ⟨s.objects.push o⟩ where
  becomes _ k hk := ⟨k, hk.push o, .refl k⟩
  sound id u hu := by
    have hkept : ∀ id, s.isFunction id = true → isFunction ⟨s.objects.push o⟩ id = true := by
      intro id hf
      obtain ⟨k, hk, hf⟩ := isFunction_iff.mp hf
      exact isFunction_iff.mpr ⟨k, hk.push o, hf⟩
    obtain hu | ⟨-, rfl⟩ := get_push_cases hu
    · exact (hs id u hu).mono hkept
    · exact ho.mono hkept

/-- An object is changed. -/
theorem evolves_set (hs : s.Sound) (found : s.get id = .ok o) (hbecomes : o.kind.Becomes o'.kind)
    (ho' : o'.Sound s) : s.Evolves (s.set id o') := by
  have hkinds : ∀ i k, s.HasKind i k → ∃ k', (s.set id o').HasKind i k' ∧ k.Becomes k' := by
    rintro i k ⟨u, hu, rfl⟩
    by_cases hid : id = i
    · subst hid
      cases found.symm.trans hu
      exact ⟨o'.kind, ⟨o', get_set_self (lt_size_of_get found), rfl⟩, hbecomes⟩
    · exact ⟨u.kind, ⟨u, (get_set_of_ne hid).trans hu, rfl⟩, .refl u.kind⟩
  refine ⟨hkinds, fun i u hu => ?_⟩
  have hkept : ∀ i, s.isFunction i = true → (s.set id o').isFunction i = true := by
    intro i hf
    obtain ⟨k, hk, hf⟩ := isFunction_iff.mp hf
    obtain ⟨k', hk', hbecomes⟩ := hkinds i k hk
    exact isFunction_iff.mpr ⟨k', hk', hbecomes.isFunction.trans hf⟩
  obtain ⟨rfl, rfl⟩ | hu := get_set_cases hu
  · exact ho'.mono hkept
  · exact (hs i u hu).mono hkept

/-- Only properties, the prototype or the flag of an object are changed. -/
theorem evolves_set_of_kind (hs : s.Sound) (found : s.get id = .ok o) (hkind : o'.kind = o.kind)
    (ho' : o'.Sound s) : s.Evolves (s.set id o') :=
  evolves_set hs found (hkind ▸ .refl o.kind) ho'

/-- What an object holds takes a step. -/
theorem evolves_setKind (hs : s.Sound) (found : s.get id = .ok o) (hstep : o.kind.Step k) :
    s.Evolves (s.set id { o with kind := k }) :=
  evolves_set hs found hstep.becomes ((hs id o found).withKind hstep)

theorem evolves_of_define {key : Key} {d : Descriptor} {done : Bool} (hs : s.Sound) (hd : d.Sound s)
    (h : s.define id key d = .ok (s', done)) : s.Evolves s' := by
  obtain ⟨o, ho, rfl⟩ := eq_set_of_define h
  exact evolves_set_of_kind hs ho (o.kind_define key d) ((hs id o ho).define hd)

theorem evolves_of_delete {key : Key} {done : Bool} (hs : s.Sound)
    (h : s.delete id key = .ok (s', done)) : s.Evolves s' := by
  obtain ⟨o, ho, rfl⟩ := eq_set_of_delete h
  exact evolves_set_of_kind hs ho (o.kind_delete key) (hs id o ho).delete

theorem evolves_of_setPrototype {prototype : Option ObjectId} {done : Bool} (hs : s.Sound)
    (h : s.setPrototype id prototype = .ok (s', done)) : s.Evolves s' := by
  obtain rfl | ⟨o, ho, -, -, rfl⟩ := eq_set_of_setPrototype h
  · exact .refl hs
  · have hsound := hs id o ho
    exact evolves_set_of_kind hs ho rfl ⟨hsound.kind, hsound.properties, hsound.array⟩

theorem evolves_of_modify {f : Object → Object} (hs : s.Sound) (hkind : ∀ o, (f o).kind = o.kind)
    (hf : ∀ o : Object, o.Sound s → (f o).Sound s) (h : s.modify id f = .ok s') : s.Evolves s' := by
  obtain ⟨o, ho, rfl⟩ := eq_set_of_modify h
  exact evolves_set_of_kind hs ho (hkind o) (hf o (hs id o ho))

/-- The store has evolved from a sound one of which this is known. -/
def Since (K : Store → Prop) (s : Store) : Prop := ∃ s₀, s₀.Sound ∧ K s₀ ∧ s₀.Evolves s

variable {K K' : Store → Prop}

theorem Since.sound (h : s.Since K) : s.Sound := by
  obtain ⟨s₀, -, -, hevolves⟩ := h
  exact hevolves.sound

theorem Since.of (hs : s.Sound) (h : K s) : s.Since K := ⟨s, hs, h, .refl hs⟩

theorem Since.evolves (h : s.Since K) (hevolves : s.Evolves s') : s'.Since K := by
  obtain ⟨s₀, hs, hk, hbefore⟩ := h
  exact ⟨s₀, hs, hk, hbefore.trans hevolves⟩

theorem Evolves.isHalf {f : Option ObjectId} (h : s.Evolves s') (hf : s.IsHalf f) : s'.IsHalf f :=
  fun g hg => h.isFunction (hf g hg)

/-- What an object held has become something else. -/
theorem Since.hasKind (h : s.Since fun s => s.HasKind id k) :
    ∃ k', s.HasKind id k' ∧ k.Becomes k' ∧ k.Sound := by
  obtain ⟨s₀, hs, hk, hevolves⟩ := h
  obtain ⟨k', hk', hbecomes⟩ := hevolves.becomes id k hk
  obtain ⟨o, ho, rfl⟩ := hk
  exact ⟨k', hk', hbecomes, (hs id o ho).kind⟩

theorem Since.isHalf {f : Option ObjectId} (h : s.Since fun s => s.IsHalf f) : s.IsHalf f := by
  obtain ⟨s₀, -, hf, hevolves⟩ := h
  exact hevolves.isHalf hf

theorem Since.descriptor {d : Descriptor} (h : s.Since d.Sound) : d.Sound s := by
  obtain ⟨s₀, -, hd, hevolves⟩ := h
  exact hevolves.descriptor hd

/-- What was a property of the object is sound still. -/
theorem Since.own? {key : Key} (h : s.Since fun s => s.get id = .ok o) :
    ∀ d ∈ (o.own? key).toList, d.Sound s := by
  obtain ⟨s₀, hs, ho, hevolves⟩ := h
  exact fun d hd => hevolves.descriptor ((hs id o ho).own? (Option.mem_toList.mp hd))

/-- It has evolved from that store as well. -/
theorem Since.join (h : s.Since K) (hk : ∀ s, K s → s.Since K') : s.Since K' := by
  obtain ⟨s₀, -, hs₀, hevolves⟩ := h
  exact (hk s₀ hs₀).evolves hevolves

theorem Since.imp (h : s.Since K) (hk : ∀ s, s.Sound → K s → K' s) : s.Since K' := by
  obtain ⟨s₀, hs, hs₀, hevolves⟩ := h
  exact ⟨s₀, hs, hk s₀ hs hs₀, hevolves⟩

end Store

end Stasis
