import Mathlib
import Stasis.Proofs.Graph
import Stasis.Proofs.Keys

/-!
# Defining the properties of a copy

A copy gets its properties in the order of the own keys of the original. An array has its length
before anything else; elements make it longer, and its length is set behind the last of them.

* `Object.link?`: a property is defined unless it is there already.
* `Object.linkAll_ownEntries`: the copy has the own properties of the original, in the same order.
-/

namespace Stasis

theorem Value.sameValue_eq {v w : Value} (h : v.sameValue w = true) : v = w := by
  cases v with
  | number a =>
    cases w with
    | number b =>
      simp only [sameValue] at h
      split at h
      · next hn =>
        simp only [Bool.and_eq_true, Float.isNaN_eq_decide_eq_nan, decide_eq_true_eq] at hn
        rw [hn.1, hn.2]
      · exact congrArg _ (Float.toBits_inj.mp (by simpa using h))
    | _ => cases h
  | _ => cases w <;> simp_all [sameValue, strictEquals]

theorem Descriptor.sameAs_eq {d d' : Descriptor} (h : d.sameAs d' = true) : d = d' := by
  cases d <;> cases d' <;> simp only [sameAs, Bool.and_eq_true, beq_iff_eq, reduceCtorEq] at h
  · obtain ⟨⟨⟨hv, rfl⟩, rfl⟩, rfl⟩ := h
    rw [Value.sameValue_eq hv]
  · obtain ⟨⟨⟨rfl, rfl⟩, rfl⟩, rfl⟩ := h
    rfl

theorem Descriptor.isConfigurable_map (d : Descriptor) (f : ObjectId → ObjectId) :
    (d.map f).isConfigurable = d.isConfigurable := by
  cases d <;> rfl

namespace Object

variable {o o' : Object} {k : Key} {d : Descriptor} {f : ObjectId → ObjectId}

/-- Defines a property unless it is there already. -/
def link? (o : Object) (p : Key × Descriptor) : Option Object :=
  if (o.own? p.1).any fun old => old.sameAs p.2 then some o else o.define? p.1 p.2

/-- Nothing but the properties has changed. -/
structure SameBut (o o' : Object) : Prop where
  prototype : o'.prototype = o.prototype
  extensible : o'.extensible = o.extensible
  kind : o'.kind = o.kind

theorem SameBut.refl (o : Object) : o.SameBut o := ⟨rfl, rfl, rfl⟩

theorem SameBut.trans {o'' : Object} (h : o.SameBut o') (h' : o'.SameBut o'') : o.SameBut o'' :=
  ⟨h'.prototype.trans h.prototype, h'.extensible.trans h.extensible, h'.kind.trans h.kind⟩

/-! ## New properties -/

theorem link?_of_new (h : o.own? k = none) (he : o.extensible = true) {u : Object}
    (hp : (if o.kind.isArray then o.prepareArray? k d else some o) = some u) :
    o.link? (k, d) = some { u with properties := u.properties.insert k d } := by
  unfold link? define? allows
  simp only [h, Option.any_none, Bool.false_eq_true, if_false, he, if_true, hp, Option.map_some]

/-- The key makes no array longer or shorter. -/
def IsPlainKey (o : Object) (k : Key) : Prop :=
  o.kind.isArray = false ∨ (k.arrayIndex? = none ∧ k ≠ .length)

theorem IsPlainKey.prepare (h : o.IsPlainKey k) (d : Descriptor) :
    (if o.kind.isArray then o.prepareArray? k d else some o) = some o := by
  rcases h with h | ⟨hi, hk⟩
  · simp [h]
  · split
    · simp only [prepareArray?, hi]
      split
      · rw [if_neg hk]
      · rfl
    · rfl

/-- New properties come after those that are there. -/
theorem linkAll_plain {l : List (Key × Descriptor)} : ∀ {o : Object}, o.extensible = true →
    (∀ p ∈ l, o.IsPlainKey p.1) → ((o.properties.entries ++ l).map Prod.fst).Nodup →
      ∃ o', l.foldlM link? o = some o' ∧ o.SameBut o'
        ∧ o'.properties.entries = o.properties.entries ++ l := by
  induction l with
  | nil =>
    intro o _ _ _
    exact ⟨o, rfl, .refl o, (List.append_nil _).symm⟩
  | cons p l ih =>
    intro o he hplain hnodup
    obtain ⟨hp, hl⟩ := List.forall_mem_cons.mp hplain
    have hnew : p.1 ∉ o.properties.keys := by
      simp only [List.map_append, List.map_cons, List.nodup_append, List.mem_cons] at hnodup
      intro hm
      exact hnodup.2.2 _ hm _ (Or.inl rfl) rfl
    have hstep := link?_of_new (d := p.2) (Table.find?_eq_none_iff.mpr hnew) he (hp.prepare p.2)
    have hentries := Table.entries_insert_of_notMem (v := p.2) hnew
    obtain ⟨o', ho', hsame, hall⟩ :=
      ih (o := { o with properties := o.properties.insert p.1 p.2 }) he hl (by
        rw [hentries]
        simpa using hnodup)
    refine ⟨o', ?_, ⟨hsame.prototype, hsame.extensible, hsame.kind⟩, ?_⟩
    · rw [List.foldlM_cons, hstep]
      exact ho'
    · rw [hall, hentries, List.append_assoc]
      rfl

/-! ## Elements and lengths of arrays -/

/-- An array that is being filled: its length, which can be written, and then its elements. -/
def IsFilling (o : Object) (l : List (Key × Descriptor)) : Prop :=
  o.kind = .array ∧ o.extensible = true
    ∧ ∃ x, o.properties.entries = (Key.length, .data (.number x) true false false) :: l

theorem IsFilling.own_length {l : List (Key × Descriptor)} (h : o.IsFilling l) :
    ∃ x, o.own? .length = some (.data (.number x) true false false) := by
  obtain ⟨-, -, x, hx⟩ := h
  exact ⟨x, Table.find?_eq_some_iff.mpr (by rw [hx]; exact List.mem_cons_self)⟩

/-- Setting the length of an array that is being filled changes nothing else. -/
theorem IsFilling.setArrayLength? {l : List (Key × Descriptor)} (h : o.IsFilling l) (n : ℕ) :
    ∃ o', o.setArrayLength? n = some o' ∧ o.SameBut o' ∧ o'.IsFilling l := by
  obtain ⟨x, hown⟩ := h.own_length
  obtain ⟨hk, he, x', hx⟩ := h
  let length : Descriptor := .data (.number (Number.ofInt n)) true false false
  refine ⟨{ o with properties := o.properties.insert .length length }, ?_, ⟨rfl, rfl, rfl⟩, hk, he,
    Number.ofInt n, ?_⟩
  · unfold Object.setArrayLength?
    rw [hown]
  have := insertIn_append (k := Key.length) (v := length)
    (u := Descriptor.data (.number x') true false false) (l := []) (m := l) (by simp)
  rw [List.nil_append, List.nil_append, ← hx] at this
  exact this

/-- Elements come behind the length. -/
theorem linkAll_elements {l : List (Key × Descriptor)} : ∀ {o : Object} {l' : List (Key × Descriptor)},
    o.IsFilling l' → (∀ p ∈ l, p.1.arrayIndex?.isSome = true) →
      ((l' ++ l).map Prod.fst).Nodup →
        ∃ o', l.foldlM link? o = some o' ∧ o.SameBut o' ∧ o'.IsFilling (l' ++ l) := by
  induction l with
  | nil =>
    intro o l' h _ _
    exact ⟨o, rfl, .refl o, by rwa [List.append_nil]⟩
  | cons p l ih =>
    intro o l' h hindex hnodup
    obtain ⟨hp, hl⟩ := List.forall_mem_cons.mp hindex
    obtain ⟨i, hi⟩ := Option.isSome_iff_exists.mp hp
    have hnotin : p.1 ∉ l'.map Prod.fst := by
      simp only [List.map_append, List.map_cons, List.nodup_append, List.mem_cons] at hnodup
      intro hm
      exact hnodup.2.2 _ hm _ (Or.inl rfl) rfl
    have hnew : ∀ {o : Object}, o.IsFilling l' → p.1 ∉ o.properties.keys := by
      rintro o ⟨-, -, x, hx⟩
      rw [Table.keys, hx, List.map_cons, List.mem_cons, not_or]
      refine ⟨?_, hnotin⟩
      rintro he
      rw [he] at hi
      cases hi
    -- the array is long enough for the element, or is made so
    obtain ⟨o₁, ho₁, hsame₁, h₁⟩ : ∃ o₁, o.prepareArray? p.1 p.2 = some o₁ ∧ o.SameBut o₁
        ∧ o₁.IsFilling l' := by
      simp only [prepareArray?, hi]
      split
      · exact h.setArrayLength? (i + 1)
      · exact ⟨o, rfl, .refl o, h⟩
    have hstep := link?_of_new (d := p.2) (Table.find?_eq_none_iff.mpr (hnew h)) h.2.1
      (u := o₁) (by rw [h.1]; exact ho₁)
    have h₂ : IsFilling { o₁ with properties := o₁.properties.insert p.1 p.2 } (l' ++ [p]) := by
      obtain ⟨x, hx⟩ := h₁.2.2
      refine ⟨h₁.1, h₁.2.1, x, ?_⟩
      rw [Table.entries_insert_of_notMem (hnew h₁), hx]
      rfl
    obtain ⟨o', ho', hsame, hall⟩ := ih h₂ hl (by simpa using hnodup)
    refine ⟨o', ?_, hsame₁.trans ⟨hsame.prototype, hsame.extensible, hsame.kind⟩, by simpa using hall⟩
    rw [List.foldlM_cons, hstep]
    exact ho'

/-- The length of an array is set behind its elements, which are all in front of it. -/
theorem link?_length {l : List (Key × Descriptor)} (h : o.IsFilling l) {v : Value} {w : Bool}
    (hbound : ∀ x p index, v = .number x → p ∈ l → p.1.arrayIndex? = some index →
      p.2.isConfigurable = true → index < toLength x) :
    ∃ o', o.link? (.length, .data v w false false) = some o' ∧ o.SameBut o'
      ∧ o'.properties.entries = (Key.length, .data v w false false) :: l := by
  obtain ⟨x, hx⟩ := h.2.2
  have hown : o.own? .length = some (.data (.number x) true false false) :=
    Table.find?_eq_some_iff.mpr (by rw [hx]; exact List.mem_cons_self)
  unfold link?
  rw [hown, Option.any_some]
  split
  · next hsame =>
    refine ⟨o, rfl, .refl o, ?_⟩
    rw [hx, Descriptor.sameAs_eq hsame]
  · have hallows : o.allows .length (.data v w false false) = true := by
      unfold Object.allows
      rw [hown]
      rfl
    have hprepare : ∃ o₁, o.prepareArray? .length (.data v w false false) = some o₁ ∧ o.SameBut o₁
        ∧ o₁.properties.entries = o.properties.entries := by
      unfold prepareArray?
      simp only [show Key.length.arrayIndex? = none from rfl, Descriptor.value?, if_true]
      cases v with
      | number y =>
        refine ⟨_, rfl, ⟨rfl, rfl, rfl⟩, ?_⟩
        refine List.filter_eq_self.mpr fun p hp => ?_
        rw [hx] at hp
        rcases List.mem_cons.mp hp with rfl | hp
        · rfl
        · cases hi : p.1.arrayIndex? with
          | none => simp only [hi]
          | some index =>
            have := hbound y p index rfl hp hi
            cases hc : p.2.isConfigurable <;> simp_all
      | _ => exact ⟨o, rfl, .refl o, rfl⟩
    obtain ⟨o₁, ho₁, hsame₁, he₁⟩ := hprepare
    refine ⟨{ o₁ with properties := o₁.properties.insert .length (.data v w false false) }, ?_,
      ⟨hsame₁.prototype, hsame₁.extensible, hsame₁.kind⟩, ?_⟩
    · simp only [define?, hallows, if_true, h.1, Kind.isArray, ho₁, Option.map_some]
    · have := insertIn_append (k := Key.length) (v := Descriptor.data v w false false)
        (u := Descriptor.data (.number x) true false false) (l := []) (m := l) (by simp)
      rw [List.nil_append, List.nil_append, ← hx, ← he₁] at this
      exact this

/-! ## All properties -/

/-- The properties under keys, with other objects. -/
def entriesOf (o : Object) (f : ObjectId → ObjectId) (keys : List Key) : List (Key × Descriptor) :=
  keys.filterMap fun k => (o.own? k).map fun d => (k, d.map f)

theorem map_ownEntries (o : Object) (f : ObjectId → ObjectId) :
    (o.ownEntries.map fun p => (p.1, p.2.map f)) = o.entriesOf f o.ownKeys := by
  rw [ownEntries, entriesOf, List.map_filterMap]
  simp only [Option.map_map, Function.comp_def]

theorem entriesOf_append (l l' : List Key) :
    o.entriesOf f (l ++ l') = o.entriesOf f l ++ o.entriesOf f l' := List.filterMap_append

theorem mem_entriesOf_iff {keys : List Key} {d' : Descriptor} :
    (k, d') ∈ o.entriesOf f keys ↔ k ∈ keys ∧ ∃ d, o.own? k = some d ∧ d' = d.map f := by
  simp only [entriesOf, List.mem_filterMap, Option.map_eq_some_iff, Prod.mk.injEq]
  constructor
  · rintro ⟨k', hk', d, hd, rfl, rfl⟩
    exact ⟨hk', d, hd, rfl⟩
  · rintro ⟨hk, d, hd, rfl⟩
    exact ⟨k, hk, d, hd, rfl, rfl⟩

theorem map_fst_entriesOf {keys : List Key} (h : ∀ k ∈ keys, k ∈ o.properties.keys) :
    (o.entriesOf f keys).map Prod.fst = keys := by
  induction keys with
  | nil => rfl
  | cons k keys ih =>
    obtain ⟨hk, hkeys⟩ := List.forall_mem_cons.mp h
    obtain ⟨d, hd⟩ := Table.mem_keys_iff.mp hk
    have hd' : o.own? k = some d := hd
    have hih := ih hkeys
    simp only [entriesOf] at hih ⊢
    rw [List.filterMap_cons, hd', Option.map_some, List.map_cons, hih]

/-- An object that has been given the properties of another one has them in the same order. -/
theorem ownEntries_eq_of_relisted {l m : List Key}
    (ht : textKeys o.properties.keys = l ++ m)
    (h : o'.properties.entries = o.entriesOf f (l ++ indexKeys o.properties.keys ++ m
      ++ symbolKeys o.properties.keys)) :
    o'.ownEntries = o.ownEntries.map fun p => (p.1, p.2.map f) := by
  have hmem : ∀ k, k ∈ l ++ indexKeys o.properties.keys ++ m
      ++ symbolKeys o.properties.keys ↔ k ∈ o.properties.keys := by
    intro k
    rw [← mem_ownKeys_iff, ownKeys_eq, ht]
    simp only [List.mem_append]
    tauto
  have hkeys : o'.properties.keys = l ++ indexKeys o.properties.keys ++ m
      ++ symbolKeys o.properties.keys := by
    rw [Table.keys, h, map_fst_entriesOf fun k hk => (hmem k).mp hk]
  have hown : ∀ k, o'.own? k = (o.own? k).map (Descriptor.map f) := by
    intro k
    cases hd : o.own? k with
    | none =>
      refine Table.find?_eq_none_iff.mpr ?_
      rw [hkeys, hmem]
      exact Table.find?_eq_none_iff.mp hd
    | some d =>
      refine Table.find?_eq_some_iff.mpr ?_
      rw [h, mem_entriesOf_iff, hmem]
      exact ⟨Table.mem_keys_iff.mpr ⟨d, hd⟩, d, hd, rfl⟩
  rw [map_ownEntries, ownEntries, ownKeys_eq_of_relisted ht hkeys, entriesOf]
  simp only [hown, Option.map_map, Function.comp_def]

/-- A bare array is given all properties of another one: its elements, its length, and the rest. -/
theorem linkAll_array (f : ObjectId → ObjectId) (hfill : o'.IsFilling [])
    (hbegin : o.BeginsWithLength) (hend : o.EndsAtLength) :
    ∃ o'', (o.entriesOf f o.ownKeys).foldlM link? o' = some o'' ∧ o'.SameBut o''
      ∧ o''.ownEntries = o.entriesOf f o.ownKeys := by
  obtain ⟨v, w, rest, hrest⟩ := hbegin
  let indices := indexKeys o.properties.keys
  let after := textKeys (rest.map Prod.fst)
  let symbols := symbolKeys o.properties.keys
  have htext : textKeys o.properties.keys = .length :: after := by
    rw [Table.keys, hrest]
    rfl
  have hownkeys : o.ownKeys = indices ++ .length :: (after ++ symbols) := by
    rw [ownKeys_eq, htext, List.append_assoc]
    rfl
  have hlength : o.own? .length = some (.data v w false false) :=
    Table.find?_eq_some_iff.mpr (by rw [hrest]; exact List.mem_cons_self)
  have hcons : ∀ l, o.entriesOf f (.length :: l)
      = (.length, .data (v.map f) w false false) :: o.entriesOf f l := by
    intro l
    simp only [entriesOf, List.filterMap_cons, hlength, Option.map_some, Descriptor.map]
  have hmem : ∀ k ∈ o.ownKeys, k ∈ o.properties.keys := fun k h => mem_ownKeys_iff.mp h
  have hnodup := o.nodup_ownKeys
  rw [hownkeys] at hmem hnodup
  have hentries : o.entriesOf f o.ownKeys = o.entriesOf f indices
      ++ (.length, .data (v.map f) w false false) :: o.entriesOf f (after ++ symbols) := by
    rw [hownkeys, entriesOf_append, hcons]
  -- first the elements
  obtain ⟨o₁, ho₁, hsame₁, h₁⟩ := linkAll_elements (l := o.entriesOf f indices) hfill (by
      rintro ⟨k, d⟩ hkd
      exact (mem_indexKeys_iff.mp (mem_entriesOf_iff.mp hkd).1).2) (by
      rw [List.nil_append, map_fst_entriesOf fun k hk => hmem k (List.mem_append_left _ hk)]
      exact (List.nodup_append.mp hnodup).1)
  -- then the length, which is behind all of them
  obtain ⟨o₂, ho₂, hsame₂, h₂⟩ := link?_length (v := v.map f) (w := w) h₁ (by
    rintro x ⟨k, d'⟩ index hx hp hi hc
    rw [List.nil_append] at hp
    obtain ⟨-, d, hd, rfl⟩ := mem_entriesOf_iff.mp hp
    rw [Descriptor.isConfigurable_map] at hc
    have hv : v = .number x := by
      cases v <;> first | exact hx | cases hx
    exact hend k d index x w false false (Table.find?_eq_some_iff.mp hd) hi hc (hv ▸ hlength))
  rw [List.nil_append] at h₂
  -- and then everything else
  obtain ⟨o₃, ho₃, hsame₃, h₃⟩ := linkAll_plain (o := o₂) (l := o.entriesOf f (after ++ symbols))
    (by rw [hsame₂.extensible, hsame₁.extensible]; exact hfill.2.1) (by
      rintro ⟨k, d⟩ hkd
      have hk := (mem_entriesOf_iff.mp hkd).1
      refine Or.inr ⟨?_, ?_⟩
      · rcases List.mem_append.mp hk with hk | hk
        · have := (List.mem_filter.mp hk).2
          simp only [Bool.and_eq_true, Option.isNone_iff_eq_none] at this
          exact this.2
        · have := (List.mem_filter.mp hk).2
          cases k <;> simp_all [isTextKey, Key.arrayIndex?]
      · rintro rfl
        exact (List.nodup_cons.mp (List.nodup_append.mp hnodup).2.1).1 hk) (by
      rw [h₂, List.map_append, List.map_cons,
        map_fst_entriesOf fun k hk => hmem k (List.mem_append_left _ hk),
        map_fst_entriesOf fun k hk => hmem k (List.mem_append_right _ (List.mem_cons_of_mem _ hk))]
      rw [List.cons_append]
      exact (List.perm_middle.nodup_iff).mp hnodup)
  refine ⟨o₃, ?_, (hsame₁.trans hsame₂).trans hsame₃, ?_⟩
  · rw [hentries, List.foldlM_append, ho₁]
    refine (?_ : (List.foldlM link? o₁ _) = _)
    rw [List.foldlM_cons, ho₂]
    exact ho₃
  · rw [← map_ownEntries]
    refine ownEntries_eq_of_relisted (l := [.length]) htext ?_
    rw [h₃, h₂]
    rw [List.cons_append, ← entriesOf_append, ← hcons]
    simp only [List.cons_append, List.nil_append, List.append_assoc]
    rfl

/-- A bare object is given all properties of another one. -/
theorem linkAll_ownEntries (f : ObjectId → ObjectId) (he : o'.extensible = true)
    (hp : o'.properties.entries = if o.kind.isArray then [(Key.length, newLength)] else [])
    (hk : o'.kind.isArray = o.kind.isArray) (hbegin : o.kind = .array → o.BeginsWithLength)
    (hend : o.kind = .array → o.EndsAtLength) :
    ∃ o'', (o.ownEntries.map fun p => (p.1, p.2.map f)).foldlM link? o' = some o''
      ∧ o'.SameBut o'' ∧ o''.ownEntries = o.ownEntries.map fun p => (p.1, p.2.map f) := by
  have hown : ∀ k ∈ o.ownKeys, k ∈ o.properties.keys := fun k h => mem_ownKeys_iff.mp h
  rw [map_ownEntries]
  cases ha : o.kind.isArray with
  | false =>
    rw [ha] at hp hk
    obtain ⟨o'', ho'', hsame, hentries⟩ := linkAll_plain (l := o.entriesOf f o.ownKeys) he
      (fun p _ => Or.inl hk) (by
        rw [hp, if_neg Bool.false_ne_true, List.nil_append, map_fst_entriesOf hown]
        exact o.nodup_ownKeys)
    refine ⟨o'', ho'', hsame, ?_⟩
    rw [← map_ownEntries]
    refine ownEntries_eq_of_relisted (l := []) rfl ?_
    rw [hentries, hp, if_neg Bool.false_ne_true]
    rfl
  | true =>
    have harray : o.kind = .array := by
      cases hkind : o.kind <;> simp_all [Kind.isArray]
    have hfill : o'.IsFilling [] := by
      refine ⟨?_, he, 0, by rw [hp, ha]; rfl⟩
      cases hkind : o'.kind <;> simp_all [Kind.isArray]
    exact linkAll_array f hfill (hbegin harray) (hend harray)

end Object

end Stasis
