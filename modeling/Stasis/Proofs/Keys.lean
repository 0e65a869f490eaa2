import Mathlib
import Stasis.Heap.Object
import Stasis.Proofs.Table

/-!
# The order of own keys

* `Object.mem_ownEntries_iff`: own properties in order are the properties of the object.
* `Object.ownKeys_eq_of_relisted`: an object whose properties were added in the order of the own
  keys of another one, some texts before everything else, has its keys in the same order.
-/

namespace Stasis

namespace Object

/-- The keys that are texts and no indices. -/
def textKeys (keys : List Key) : List Key :=
  keys.filter fun k => isTextKey k && k.arrayIndex?.isNone

/-- The keys that are symbols. -/
def symbolKeys (keys : List Key) : List Key := keys.filter fun k => !isTextKey k

theorem ownKeys_eq (o : Object) :
    o.ownKeys = indexKeys o.properties.keys ++ textKeys o.properties.keys
      ++ symbolKeys o.properties.keys := rfl

variable {k : Key} {keys : List Key} {o o' : Object}

/-- The key of an index is a text of digits. -/
theorem all_isDigit_toString (n : ℕ) : (toString n).toList.all Char.isDigit = true := by
  rw [Nat.toString_eq_repr, Nat.toList_repr, List.all_eq_true]
  exact fun c hc => Nat.isDigit_of_mem_toDigits (by decide) le_rfl hc

theorem ofIndex_ne_length (n : ℕ) : Key.ofIndex n ≠ .length := by
  intro h
  have hdigits := all_isDigit_toString n
  rw [Key.text.inj h] at hdigits
  cases hdigits

theorem arrayIndex?_lt {n : ℕ} (h : k.arrayIndex? = some n) : n < indexLimit := by
  cases k with
  | symbol id => cases h
  | text s =>
    simp only [Key.arrayIndex?] at h
    split at h
    · split at h
      · next hlt => exact Option.some.inj h ▸ hlt
      · cases h
    · cases h

theorem isTextKey_of_arrayIndex? {n : ℕ} (h : k.arrayIndex? = some n) : isTextKey k = true := by
  cases k with
  | text s => rfl
  | symbol id => cases h

/-- The pairs that are sorted: keys that are indices, with what they denote. -/
def indexPairs (keys : List Key) : List (ℕ × Key) :=
  keys.filterMap fun k => k.arrayIndex?.map fun n => (n, k)

theorem mem_indexPairs_iff {n : ℕ} :
    (n, k) ∈ indexPairs keys ↔ k ∈ keys ∧ k.arrayIndex? = some n := by
  simp only [indexPairs, List.mem_filterMap, Option.map_eq_some_iff, Prod.mk.injEq]
  constructor
  · rintro ⟨k', hk', m, hm, rfl, rfl⟩
    exact ⟨hk', hm⟩
  · rintro ⟨hk, hn⟩
    exact ⟨k, hk, n, hn, rfl, rfl⟩

theorem mem_indexKeys_iff : k ∈ indexKeys keys ↔ k ∈ keys ∧ k.arrayIndex?.isSome = true := by
  have h : k ∈ indexKeys keys ↔ ∃ n, (n, k) ∈ indexPairs keys := by
    simp [indexKeys, indexPairs, List.mem_mergeSort]
  simp only [h, mem_indexPairs_iff, Option.isSome_iff_exists, exists_and_left]

theorem mem_ownKeys_iff : k ∈ o.ownKeys ↔ k ∈ o.properties.keys := by
  simp only [ownKeys_eq, List.mem_append, mem_indexKeys_iff, textKeys, symbolKeys, List.mem_filter]
  constructor
  · rintro ((h | h) | h) <;> exact h.1
  · intro hk
    rcases hn : k.arrayIndex? with _ | n
    · cases isTextKey k <;> simp [hk]
    · simp [hk]

/-- Own properties in order are the properties of the object. -/
theorem mem_ownEntries_iff {d : Descriptor} : (k, d) ∈ o.ownEntries ↔ o.own? k = some d := by
  simp only [ownEntries, List.mem_filterMap, Option.map_eq_some_iff, Prod.mk.injEq, mem_ownKeys_iff]
  constructor
  · rintro ⟨k', -, d', hd', rfl, rfl⟩
    exact hd'
  · intro hd
    exact ⟨k, Table.mem_keys_iff.mpr ⟨d, hd⟩, d, hd, rfl, rfl⟩

theorem nodup_indexKeys (h : keys.Nodup) : (indexKeys keys).Nodup := by
  have hpairs : (indexPairs keys).map Prod.snd = keys.filter fun k => k.arrayIndex?.isSome := by
    clear h
    induction keys with
    | nil => rfl
    | cons k l ih =>
      cases hk : k.arrayIndex? <;> simp_all [indexPairs]
  have hperm := (List.mergeSort_perm (indexPairs keys) fun a b => decide (a.1 ≤ b.1)).map Prod.snd
  rw [hpairs] at hperm
  exact hperm.nodup_iff.mpr (h.filter _)

theorem nodup_ownKeys (o : Object) : o.ownKeys.Nodup := by
  have hkeys : o.properties.keys.Nodup := o.properties.nodup
  have hindex := nodup_indexKeys hkeys
  rw [ownKeys_eq, List.nodup_append, List.nodup_append]
  refine ⟨⟨hindex, hkeys.filter _, ?_⟩, hkeys.filter _, ?_⟩
  · rintro a ha b hb rfl
    have h := (mem_indexKeys_iff.mp ha).2
    simp [textKeys, List.mem_filter] at hb
    simp [hb.2.2] at h
  · rintro a ha b hb rfl
    have hb' : isTextKey a = false := by simpa using (List.mem_filter.mp hb).2
    rcases List.mem_append.mp ha with ha | ha
    · obtain ⟨n, hn⟩ := Option.isSome_iff_exists.mp (mem_indexKeys_iff.mp ha).2
      rw [isTextKey_of_arrayIndex? hn] at hb'
      cases hb'
    · have := (List.mem_filter.mp ha).2
      simp [hb'] at this

/-! ## Sorting twice -/

theorem indexPairs_append (l l' : List Key) :
    indexPairs (l ++ l') = indexPairs l ++ indexPairs l' := List.filterMap_append

theorem indexPairs_of_none (h : ∀ k ∈ keys, k.arrayIndex? = none) : indexPairs keys = [] := by
  unfold indexPairs
  rw [List.filterMap_eq_nil_iff]
  intro k hk
  simp [h k hk]

theorem indexPairs_map_snd {l : List (ℕ × Key)} (h : ∀ p ∈ l, p.2.arrayIndex? = some p.1) :
    indexPairs (l.map Prod.snd) = l := by
  induction l with
  | nil => rfl
  | cons p l ih =>
    obtain ⟨hp, hl⟩ := List.forall_mem_cons.mp h
    simp only [indexPairs, List.map_cons, List.filterMap_cons, hp, Option.map_some]
    exact congrArg _ (ih hl)

/-- Indices in order are in order. -/
theorem indexKeys_indexKeys (keys : List Key) : indexKeys (indexKeys keys) = indexKeys keys := by
  have hsorted : ((indexPairs keys).mergeSort fun a b => decide (a.1 ≤ b.1)).Pairwise
      fun a b => decide (a.1 ≤ b.1) := by
    refine List.pairwise_mergeSort (fun a b c => ?_) (fun a b => ?_) _
    · simp only [decide_eq_true_eq]
      omega
    · simp only [Bool.or_eq_true, decide_eq_true_eq]
      omega
  have hpairs : ∀ p ∈ (indexPairs keys).mergeSort fun a b => decide (a.1 ≤ b.1),
      p.2.arrayIndex? = some p.1 := by
    rintro ⟨n, k⟩ hp
    rw [List.mem_mergeSort] at hp
    exact (mem_indexPairs_iff.mp hp).2
  show ((indexPairs (((indexPairs keys).mergeSort _).map Prod.snd)).mergeSort _).map Prod.snd = _
  rw [indexPairs_map_snd hpairs, List.mergeSort_of_pairwise hsorted]
  rfl

/-- **Keys that are added in order are in order**, and some of the texts may be there before. -/
theorem ownKeys_eq_of_relisted {before after : List Key}
    (ht : textKeys o.properties.keys = before ++ after)
    (h : o'.properties.keys = before ++ indexKeys o.properties.keys ++ after
      ++ symbolKeys o.properties.keys) :
    o'.ownKeys = o.ownKeys := by
  have htext : ∀ k ∈ before ++ after, isTextKey k = true ∧ k.arrayIndex? = none := by
    intro k hk
    rw [← ht, textKeys, List.mem_filter] at hk
    simpa using hk.2
  have hb := fun k hk => htext k (List.mem_append_left _ hk)
  have ha := fun k hk => htext k (List.mem_append_right _ hk)
  have hsymbol : ∀ k ∈ symbolKeys o.properties.keys, isTextKey k = false ∧ k.arrayIndex? = none := by
    intro k hk
    rw [symbolKeys, List.mem_filter] at hk
    cases k <;> simp_all [isTextKey, Key.arrayIndex?]
  have hindex : ∀ k ∈ indexKeys o.properties.keys, isTextKey k = true ∧ k.arrayIndex?.isSome = true := by
    intro k hk
    have hs := (mem_indexKeys_iff.mp hk).2
    obtain ⟨n, hn⟩ := Option.isSome_iff_exists.mp hs
    exact ⟨isTextKey_of_arrayIndex? hn, hs⟩
  have hi : indexKeys o'.properties.keys = indexKeys o.properties.keys := by
    have hp : indexPairs o'.properties.keys = indexPairs (indexKeys o.properties.keys) := by
      rw [h]
      simp only [indexPairs_append, indexPairs_of_none fun k hk => (hb k hk).2,
        indexPairs_of_none fun k hk => (ha k hk).2,
        indexPairs_of_none fun k hk => (hsymbol k hk).2, List.nil_append, List.append_nil]
    rw [← indexKeys_indexKeys o.properties.keys]
    unfold indexKeys indexPairs at *
    rw [hp]
  have htexts : textKeys o'.properties.keys = textKeys o.properties.keys := by
    have hkeep : ∀ l : List Key, (∀ k ∈ l, isTextKey k = true ∧ k.arrayIndex? = none) →
        textKeys l = l := fun l hl => List.filter_eq_self.mpr fun k hk => by simp [hl k hk]
    have hno : textKeys (indexKeys o.properties.keys) = [] := List.filter_eq_nil_iff.mpr
      fun k hk => by simp [Option.isSome_iff_ne_none.mp (hindex k hk).2]
    have hno' : textKeys (symbolKeys o.properties.keys) = [] := List.filter_eq_nil_iff.mpr
      fun k hk => by simp [hsymbol k hk]
    have happ : ∀ l l' : List Key, textKeys (l ++ l') = textKeys l ++ textKeys l' :=
      fun l l' => List.filter_append l l'
    rw [h, ht, happ, happ, happ, hno, hno', hkeep before hb, hkeep after ha, List.append_nil,
      List.append_nil]
  have hsymbols : symbolKeys o'.properties.keys = symbolKeys o.properties.keys := by
    have hno : ∀ l : List Key, (∀ k ∈ l, isTextKey k = true) → symbolKeys l = [] :=
      fun l hl => List.filter_eq_nil_iff.mpr fun k hk => by simp [hl k hk]
    have hkeep : symbolKeys (symbolKeys o.properties.keys) = symbolKeys o.properties.keys :=
      List.filter_eq_self.mpr fun k hk => by simp [hsymbol k hk]
    have happ : ∀ l l' : List Key, symbolKeys (l ++ l') = symbolKeys l ++ symbolKeys l' :=
      fun l l' => List.filter_append l l'
    rw [h, happ, happ, happ, hno before fun k hk => (hb k hk).1,
      hno _ fun k hk => (hindex k hk).1, hno after fun k hk => (ha k hk).1, hkeep, List.nil_append,
      List.nil_append, List.nil_append]
  rw [ownKeys_eq, ownKeys_eq, hi, htexts, hsymbols]

end Object

end Stasis
