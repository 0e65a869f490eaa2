import Mathlib
import Stasis.Proofs.Define
import Stasis.Proofs.Keys
import Stasis.Proofs.Whole

/-!
# Own keys after a run of changes

Properties of an object that is no array are defined and deleted, one after another.

* `Key.arrayIndex?_eq_some_iff`: a key denotes an index if it is the key of one below the limit.
* `PropertyChange`, `Object.changed`: definitions and deletions, and the object after them.
* `Object.IsSince`: a key is there from one change on, and was not there before it.
* `Object.AreSince`: keys that are there since one change after another.
* `Object.keys_apply`: one change adds a key behind the others, or only takes keys out.
* `Object.keys_changed`: keys are stored in the order in which they were added last.
* `Object.ownKeys_changed`: indices by number, then texts, then symbols, both in that order.
-/

namespace Stasis

/-! ## Indices in canonical form -/

namespace Number

variable {c : Char} {cs : List Char} {acc n : ℕ}

theorem toNat_of_isDigit (h : c.isDigit = true) : 48 ≤ c.toNat ∧ c.toNat ≤ 57 := by
  simp only [Char.isDigit, Bool.and_eq_true, decide_eq_true_eq] at h
  exact h

theorem digitChar_of_isDigit (h : c.isDigit = true) : Nat.digitChar (c.toNat - 48) = c := by
  obtain ⟨hlo, hhi⟩ := toNat_of_isDigit h
  generalize hn : c.toNat = n at hlo hhi ⊢
  rw [← Char.ofNat_toNat c, hn]
  interval_cases n <;> rfl

/-- One digit more: ten times the value of those in front, and its own. -/
theorem digitsFrom?_concat (h : c.isDigit = true) : digitsFrom? 10 acc (cs ++ [c]) =
    (digitsFrom? 10 acc cs).map fun n => n * 10 + (c.toNat - 48) := by
  have hcode := toNat_of_isDigit h
  have hvalue : digitValue? c = some (c.toNat - 48) := if_pos h
  have hlt : c.toNat - 48 < 10 := by omega
  rw [digitsFrom?_append]
  cases digitsFrom? 10 acc cs with
  | none => rfl
  | some n => simp only [Option.bind_some, digitsFrom?, hvalue, if_pos hlt, Option.map_some]

/-- **Digits without a leading zero are those of their value.** -/
theorem digitsOf_of_digitsFrom? (hdigits : ∀ c ∈ cs, c.isDigit = true) (hne : cs ≠ [])
    (hhead : cs.length = 1 ∨ cs.head? ≠ some '0') :
    ∃ n, digitsFrom? 10 0 cs = some n ∧ digitsOf n = cs := by
  induction cs using List.reverseRecOn with
  | nil => exact absurd rfl hne
  | append_singleton ds c ih =>
    obtain ⟨hds, hc⟩ := List.forall_mem_append.mp hdigits
    have hc := hc c List.mem_cons_self
    have hcode := toNat_of_isDigit hc
    rw [digitsFrom?_concat hc]
    by_cases hnil : ds = []
    · subst hnil
      refine ⟨c.toNat - 48, by simp [digitsFrom?], ?_⟩
      rw [digitsOf_digit (by omega), digitChar_of_isDigit hc]
      rfl
    · have hfirst : ds.head? ≠ some '0' := by
        rw [List.head?_append_of_ne_nil _ hnil] at hhead
        have hlength := List.length_pos_iff.mpr hnil
        exact hhead.resolve_left (by rw [List.length_append, List.length_singleton]; omega)
      obtain ⟨m, hm, hds⟩ := ih hds hnil (.inr hfirst)
      -- the digits in front are not those of zero
      have hpos : m ≠ 0 := by
        rintro rfl
        exact hfirst (hds ▸ rfl)
      refine ⟨m * 10 + (c.toNat - 48), by rw [hm, Option.map_some], ?_⟩
      have hdiv : (m * 10 + (c.toNat - 48)) / 10 = m := by omega
      have hmod : (m * 10 + (c.toNat - 48)) % 10 = c.toNat - 48 := by omega
      rw [digitsOf_step (by omega), hdiv, hmod, hds, digitChar_of_isDigit hc]

end Number

/-- **A key denotes an index** if it is the decimal form of a number below the limit. -/
theorem Key.arrayIndex?_eq_some_iff {k : Key} {n : ℕ} :
    k.arrayIndex? = some n ↔ k = .ofIndex n ∧ n < indexLimit := by
  constructor
  · intro h
    refine ⟨?_, Object.arrayIndex?_lt h⟩
    cases k with
    | symbol id => cases h
    | text s =>
      simp only [arrayIndex?] at h
      split at h
      · next hform =>
        simp only [isCanonicalIndex, Bool.and_eq_true, Bool.or_eq_true, Bool.not_eq_true',
          List.isEmpty_eq_false_iff, List.all_eq_true, beq_iff_eq, bne_iff_ne] at hform
        obtain ⟨⟨⟨hne, hdigits⟩, hhead⟩, -⟩ := hform
        obtain ⟨m, hm, hform⟩ := Number.digitsOf_of_digitsFrom? hdigits hne hhead
        have hvalue : Number.decimalValue s.toList = m := by rw [Number.decimalValue, hm]; rfl
        rw [hvalue] at h
        split at h
        · obtain rfl := Option.some.inj h
          have htext : (toString m).toList = s.toList := by
            rw [Nat.toString_eq_repr, Nat.toList_repr]
            exact hform
          rw [ofIndex, String.toList_injective htext]
        · cases h
      · cases h
  · rintro ⟨rfl, hn⟩
    exact arrayIndex?_ofIndex hn

/-! ## Changes -/

/-- A change of the own properties of an object. -/
inductive PropertyChange where
  | define (key : Key) (d : Descriptor)
  | delete (key : Key)

/-- The object after the change, or as it was where the change is not allowed. -/
def PropertyChange.apply (o : Object) : PropertyChange → Object
  | define key d => (o.define key d).1
  | delete key => (o.delete key).1

namespace Object

variable {o empty : Object} {c : PropertyChange} {cs : List PropertyChange} {k k' : Key} {keys : List Key}
  {i : ℕ}

/-- The object after all changes. -/
def changed (o : Object) (cs : List PropertyChange) : Object := cs.foldl PropertyChange.apply o

theorem changed_concat (o : Object) (cs : List PropertyChange) (c : PropertyChange) :
    o.changed (cs ++ [c]) = c.apply (o.changed cs) := List.foldl_concat ..

/-- The object is no array and has no properties yet. -/
structure IsBlank (o : Object) : Prop where
  noArray : o.kind.isArray = false
  keys : o.properties.keys = []

theorem mem_keys_iff : k ∈ o.properties.keys ↔ (o.own? k).isSome = true := by
  rw [Table.mem_keys_iff, Option.isSome_iff_exists, own?]

/-- A definition where there are no lengths to keep. -/
theorem define?_of_noArray (h : o.kind.isArray = false) (key : Key) (d : Descriptor) :
    o.define? key d =
      if o.allows key d then some { o with properties := o.properties.insert key d } else none := by
  unfold define?
  simp only [h, Bool.false_eq_true, if_false, Option.map_some]

theorem isArray_apply (h : o.kind.isArray = false) (c : PropertyChange) :
    (c.apply o).kind.isArray = false := by
  cases c with
  | define key d =>
    rw [PropertyChange.apply, define_eq, define?_of_noArray h]
    split
    · next heq =>
      split at heq
      · cases heq
        exact h
      · cases heq
    · exact h
  | delete key =>
    rw [PropertyChange.apply, delete]
    split
    · exact h
    · split <;> exact h

theorem isArray_changed (h : o.kind.isArray = false) (cs : List PropertyChange) :
    (o.changed cs).kind.isArray = false := by
  induction cs using List.reverseRecOn with
  | nil => exact h
  | append_singleton cs c ih =>
    rw [changed_concat]
    exact isArray_apply ih c

/-- **What one change does to the keys**: a new one is added behind the others, or some are taken out and
the others keep their places. -/
theorem keys_apply (h : o.kind.isArray = false) (c : PropertyChange) :
    (∃ k, k ∉ o.properties.keys ∧ (c.apply o).properties.keys = o.properties.keys ++ [k]) ∨
      (c.apply o).properties.keys.Sublist o.properties.keys := by
  cases c with
  | define key d =>
    have hkeys := Table.keys_insert o.properties key d
    rw [PropertyChange.apply, define_eq, define?_of_noArray h]
    by_cases hallows : o.allows key d = true
    · simp only [if_pos hallows]
      by_cases hk : key ∈ o.properties.keys
      · rw [if_pos hk] at hkeys
        exact .inr (hkeys ▸ .refl _)
      · rw [if_neg hk] at hkeys
        exact .inl ⟨key, hk, hkeys⟩
    · simp only [if_neg hallows]
      exact .inr (.refl _)
  | delete key =>
    rw [PropertyChange.apply, delete]
    split
    · exact .inr (.refl _)
    · split
      · exact .inr (Table.keys_erase o.properties key ▸ List.filter_sublist)
      · exact .inr (.refl _)

/-! ## When a key was added -/

/-- The key was not there before change `i`, and has been there since. -/
structure IsSince (o : Object) (cs : List PropertyChange) (k : Key) (i : ℕ) : Prop where
  lt : i < cs.length
  before : (o.changed (cs.take i)).own? k = none
  since : ∀ j, i < j → j ≤ cs.length → ((o.changed (cs.take j)).own? k).isSome = true

/-- The first key was added, for the last time, before the second one. -/
def IsOlder (o : Object) (cs : List PropertyChange) (k k' : Key) : Prop :=
  ∃ i i', o.IsSince cs k i ∧ o.IsSince cs k' i' ∧ i < i'

theorem take_concat_of_le (c : PropertyChange) {j : ℕ} (hj : j ≤ cs.length) :
    (cs ++ [c]).take j = cs.take j := List.take_append_of_le_length hj

theorem take_concat_of_lt (c : PropertyChange) {j : ℕ} (hlt : cs.length < j) :
    (cs ++ [c]).take j = cs ++ [c] :=
  List.take_of_length_le (by rw [List.length_append, List.length_singleton]; exact hlt)

/-- A key that outlives one more change keeps its time. -/
theorem IsSince.concat (h : o.IsSince cs k i) (hk : k ∈ (o.changed (cs ++ [c])).properties.keys) :
    o.IsSince (cs ++ [c]) k i where
  lt := by
    rw [List.length_append]
    exact Nat.lt_add_right _ h.lt
  before := by
    rw [take_concat_of_le c h.lt.le]
    exact h.before
  since := by
    intro j hij _
    rcases Nat.lt_or_ge cs.length j with hlt | hle
    · rw [take_concat_of_lt c hlt]
      exact mem_keys_iff.mp hk
    · rw [take_concat_of_le c hle]
      exact h.since j hij hle

/-- The time of a key that the last change adds. -/
theorem isSince_concat (hnew : k ∉ (o.changed cs).properties.keys)
    (hk : k ∈ (o.changed (cs ++ [c])).properties.keys) : o.IsSince (cs ++ [c]) k cs.length where
  lt := by
    rw [List.length_append, List.length_singleton]
    exact Nat.lt_succ_self _
  before := by
    rw [List.take_left]
    exact Table.find?_eq_none_iff.mpr hnew
  since := by
    intro j hj _
    rw [take_concat_of_lt c hj]
    exact mem_keys_iff.mp hk

/-- Each of the keys has been there since some change, and later ones since later changes. -/
structure AreSince (o : Object) (cs : List PropertyChange) (keys : List Key) : Prop where
  since : ∀ k ∈ keys, ∃ i, o.IsSince cs k i
  ordered : keys.Pairwise (o.IsOlder cs)

/-- Keys that outlive one more change. -/
theorem AreSince.concat (h : o.AreSince cs keys) {kept : List Key} (hsublist : kept.Sublist keys)
    (hkept : kept ⊆ (o.changed (cs ++ [c])).properties.keys) : o.AreSince (cs ++ [c]) kept where
  since := by
    intro k hk
    obtain ⟨i, hi⟩ := h.since k (hsublist.subset hk)
    exact ⟨i, hi.concat (hkept hk)⟩
  ordered := by
    refine (h.ordered.sublist hsublist).imp_of_mem ?_
    rintro k k' hk hk' ⟨i, i', hi, hi', hlt⟩
    exact ⟨i, i', hi.concat (hkept hk), hi'.concat (hkept hk'), hlt⟩

/-- A key that the last change adds behind them. -/
theorem AreSince.add (h : o.AreSince cs keys) (hnew : k ∉ (o.changed cs).properties.keys)
    (hkept : keys ++ [k] ⊆ (o.changed (cs ++ [c])).properties.keys) :
    o.AreSince (cs ++ [c]) (keys ++ [k]) := by
  obtain ⟨hold, hk⟩ := List.append_subset.mp hkept
  have hlast := isSince_concat hnew (hk List.mem_cons_self)
  obtain ⟨hsince, hordered⟩ := h.concat (.refl keys) hold
  refine ⟨List.forall_mem_append.mpr ⟨hsince, List.forall_mem_singleton.mpr ⟨_, hlast⟩⟩,
    List.pairwise_append.mpr ⟨hordered, List.pairwise_singleton _ _, fun k' hk' => ?_⟩⟩
  -- the keys in front have been there since earlier changes
  obtain ⟨i, hi⟩ := h.since k' hk'
  exact List.forall_mem_singleton.mpr ⟨i, cs.length, hi.concat (hold hk'), hlast, hi.lt⟩

/-- **Keys are stored in the order in which they were added last**, each since some change. -/
theorem keys_changed (h : o.IsBlank) (cs : List PropertyChange) :
    o.AreSince cs (o.changed cs).properties.keys := by
  induction cs using List.reverseRecOn with
  | nil =>
    have hkeys : (o.changed []).properties.keys = [] := h.keys
    rw [hkeys]
    exact ⟨nofun, .nil⟩
  | append_singleton cs c ih =>
    have hstep := keys_apply (isArray_changed h.noArray cs) c
    rw [← changed_concat] at hstep
    rcases hstep with ⟨k, hnew, hkeys⟩ | hsublist
    · rw [hkeys]
      exact ih.add hnew (hkeys ▸ List.Subset.refl _)
    · exact ih.concat hsublist (List.Subset.refl _)

/-! ## Keys in order -/

/-- Indices by number, then texts that are no indices, then symbols, both in an order of their own. -/
inductive ListsKeys (older : Key → Key → Prop) : List Key → Prop
  | intro (indices : List ℕ) (texts : List String) (symbols : List SymbolId)
      (increasing : indices.Pairwise (· < ·)) (below : ∀ n ∈ indices, n < indexLimit)
      (noIndex : ∀ s ∈ texts, ∀ n < indexLimit, s ≠ toString n)
      (texts_ordered : (texts.map Key.text).Pairwise older)
      (symbols_ordered : (symbols.map Key.symbol).Pairwise older) :
      ListsKeys older (indices.map .ofIndex ++ texts.map .text ++ symbols.map .symbol)

/-- The keys that are indices, by their numbers. -/
theorem exists_indexKeys {keys : List Key} (h : keys.Nodup) : ∃ indices : List ℕ,
    indexKeys keys = indices.map .ofIndex ∧ indices.Pairwise (· < ·) ∧ ∀ n ∈ indices, n < indexLimit := by
  let pairs := (indexPairs keys).mergeSort fun a b => decide (a.1 ≤ b.1)
  have hpairs : ∀ p ∈ pairs, p.2 = .ofIndex p.1 ∧ p.1 < indexLimit := by
    rintro ⟨n, k⟩ hp
    exact Key.arrayIndex?_eq_some_iff.mp (mem_indexPairs_iff.mp (List.mem_mergeSort.mp hp)).2
  have hkeys : indexKeys keys = (pairs.map Prod.fst).map .ofIndex := by
    rw [List.map_map]
    exact List.map_congr_left fun p hp => (hpairs p hp).1
  have hle : (pairs.map Prod.fst).Pairwise (· ≤ ·) := by
    refine List.pairwise_map.mpr ((List.pairwise_mergeSort ?_ ?_ _).imp of_decide_eq_true)
    · simp only [decide_eq_true_eq]
      exact fun a b c => Nat.le_trans
    · simp only [Bool.or_eq_true, decide_eq_true_eq]
      exact fun a b => Nat.le_total a.1 b.1
  have hnodup : (pairs.map Prod.fst).Nodup := by
    have hindex := nodup_indexKeys h
    rw [hkeys] at hindex
    exact hindex.of_map _
  refine ⟨_, hkeys, (hle.and hnodup).imp fun hab => lt_of_le_of_ne hab.1 hab.2, fun n hn => ?_⟩
  obtain ⟨p, hp, rfl⟩ := List.mem_map.mp hn
  exact (hpairs p hp).2

/-- **Own keys in order**, for texts and symbols in the order in which they are stored. -/
theorem listsKeys_ownKeys {older : Key → Key → Prop} (h : o.properties.keys.Pairwise older) :
    ListsKeys older o.ownKeys := by
  have hnodup : o.properties.keys.Nodup := o.properties.nodup
  obtain ⟨indices, hindices, hincreasing, hbelow⟩ := exists_indexKeys hnodup
  have htext : ∀ k ∈ textKeys o.properties.keys, isTextKey k = true ∧ k.arrayIndex? = none := by
    intro k hk
    simpa using (List.mem_filter.mp hk).2
  obtain ⟨texts, htexts⟩ : textKeys o.properties.keys ∈ Set.range (List.map Key.text) := by
    rw [Set.range_list_map]
    intro k hk
    cases k with
    | text s => exact ⟨s, rfl⟩
    | symbol id => exact absurd (htext _ hk).1 Bool.false_ne_true
  obtain ⟨symbols, hsymbols⟩ : symbolKeys o.properties.keys ∈ Set.range (List.map Key.symbol) := by
    rw [Set.range_list_map]
    intro k hk
    cases k with
    | text s => exact absurd (List.mem_filter.mp hk).2 Bool.false_ne_true
    | symbol id => exact ⟨id, rfl⟩
  rw [ownKeys_eq, hindices, ← htexts, ← hsymbols]
  refine ⟨indices, texts, symbols, hincreasing, hbelow, fun s hs n hn heq => ?_, ?_, ?_⟩
  · have hnone := (htext (.text s) (htexts ▸ List.mem_map_of_mem hs)).2
    have hindex : (Key.text s).arrayIndex? = some n :=
      Key.arrayIndex?_eq_some_iff.mpr ⟨congrArg Key.text heq, hn⟩
    rw [hnone] at hindex
    cases hindex
  · exact htexts ▸ h.filter _
  · exact hsymbols ▸ h.filter _

/-! ## Keys defined anew -/

/-- Definitions of the keys, one after another. -/
def redefinitions (d : Key → Descriptor) (keys : List Key) : List PropertyChange :=
  keys.map fun k => .define k (d k)

/-- Keys that are defined on a blank object are stored in their order. -/
theorem keys_redefinitions (d : Key → Descriptor) {keys : List Key} (h : empty.IsBlank)
    (hopen : empty.extensible = true) (hkeys : keys.Nodup) :
    (empty.changed (redefinitions d keys)).properties.keys = keys ∧
      (empty.changed (redefinitions d keys)).extensible = true := by
  induction keys using List.reverseRecOn with
  | nil => exact ⟨h.keys, hopen⟩
  | append_singleton keys k ih =>
    obtain ⟨hkeys, -, hnew⟩ := List.nodup_append.mp hkeys
    obtain ⟨hstored, hopen⟩ := ih hkeys
    have hk : k ∉ (empty.changed (redefinitions d keys)).properties.keys := by
      rw [hstored]
      exact fun hk => hnew k hk k List.mem_cons_self rfl
    have hallows : (empty.changed (redefinitions d keys)).allows k (d k) = true := by
      rw [allows, own?, Table.find?_eq_none_iff.mpr hk]
      exact hopen
    have hconcat : redefinitions d (keys ++ [k]) = redefinitions d keys ++ [.define k (d k)] :=
      List.map_append
    have hnoArray := isArray_changed h.noArray (redefinitions d keys)
    rw [hconcat, changed_concat, PropertyChange.apply, define_eq, define?_of_noArray hnoArray,
      if_pos hallows]
    exact ⟨by rw [Table.keys_insert_of_notMem hk, hstored], hopen⟩

/-- **Own keys are in order after any definitions and deletions**: each of them once, indices by number,
then texts, then symbols, both in the order in which they were added last. An empty object that is given
them in this order has them in this order, too. -/
theorem ownKeys_changed (h : o.IsBlank) (cs : List PropertyChange) :
    (o.changed cs).ownKeys.Nodup ∧
      (∀ k, k ∈ (o.changed cs).ownKeys ↔ ((o.changed cs).own? k).isSome = true) ∧
      ListsKeys (o.IsOlder cs) (o.changed cs).ownKeys ∧
      ∀ (d : Key → Descriptor) (empty : Object), empty.IsBlank → empty.extensible = true →
        (empty.changed (redefinitions d (o.changed cs).ownKeys)).ownKeys = (o.changed cs).ownKeys := by
  have hnodup := nodup_ownKeys (o.changed cs)
  refine ⟨hnodup, fun k => mem_ownKeys_iff.trans mem_keys_iff, ?_, fun d empty hempty hopen => ?_⟩
  · exact listsKeys_ownKeys (keys_changed h cs).ordered
  · obtain ⟨hkeys, -⟩ := keys_redefinitions d hempty hopen hnodup
    have htext : textKeys (o.changed cs).properties.keys =
        [] ++ textKeys (o.changed cs).properties.keys := rfl
    refine ownKeys_eq_of_relisted htext ?_
    rw [hkeys, ownKeys_eq, List.nil_append]

/-- Texts that are added, given another value, deleted and added again, between indices of several lengths
and a text that is none. -/
theorem ownKeys_changed_again :
    let o : Object := { prototype := none, kind := .ordinary }
    let add (k : Key) : PropertyChange := .define k (.plain .null)
    let cs := [add (.symbol 1), add (.text "b"), add (.text "10"), add (.text "a"), add (.text "01"),
      .define (.text "b") (.plain .undefined), .delete (.text "a"), add (.text "4294967295"),
      add (.text "a"), add (.text "2")]
    o.IsBlank ∧ (o.changed cs).ownKeys = [.text "2", .text "10", .text "b", .text "01",
      .text "4294967295", .text "a", .symbol 1] ∧ ListsKeys (o.IsOlder cs) (o.changed cs).ownKeys ∧
      (o.changed (redefinitions (fun _ => .plain .null) (o.changed cs).ownKeys)).ownKeys =
        (o.changed cs).ownKeys := by
  intro o add cs
  have hblank : o.IsBlank := ⟨rfl, rfl⟩
  obtain ⟨-, -, hlists, hagain⟩ := ownKeys_changed hblank cs
  exact ⟨hblank, by cbv, hlists, hagain _ o hblank rfl⟩

end Object

end Stasis
