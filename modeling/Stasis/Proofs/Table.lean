import Mathlib
import Stasis.Table

/-!
# What a table holds

* `Table.find?_eq_some_iff`: look-up finds the pairs of the table.
* `Table.find?_filter_iff`: look-up in a part of a table.
* `Table.entries_insert_of_notMem`: a new key goes to the end.
* `Table.insert_eq_self`, `Table.filter_eq_self`, `Table.map_eq_self`: changes that change nothing.
* `Table.entries_ofList`: a table of pairs has these pairs.
-/

namespace Stasis

variable {α β γ : Type}

theorem Table.ext_entries {t t' : Table α β} (h : t.entries = t'.entries) : t = t' := by
  cases t
  cases t'
  simpa using h

theorem Table.keys_map (t : Table α β) (f : β → γ) : (t.map f).keys = t.keys := by
  unfold keys map
  simp [Function.comp_def]

variable [DecidableEq α] {k k' : α} {v v' : β}

theorem findIn_eq_some_iff {l : List (α × β)} (h : (l.map Prod.fst).Nodup) :
    findIn k l = some v ↔ (k, v) ∈ l := by
  induction l with
  | nil => simp [findIn]
  | cons p l ih =>
    obtain ⟨a, b⟩ := p
    simp only [List.map_cons, List.nodup_cons] at h
    obtain ⟨ha, hl⟩ := h
    by_cases hk : a = k
    · subst hk
      have hn : (a, v) ∉ l := fun hm => ha (List.mem_map_of_mem hm)
      simp [findIn, hn, eq_comm]
    · have hk' : ¬ k = a := fun e => hk e.symm
      simp [findIn, hk, hk', ih hl]

theorem findIn_eq_none_iff {l : List (α × β)} : findIn k l = none ↔ k ∉ l.map Prod.fst := by
  induction l with
  | nil => simp [findIn]
  | cons p l ih =>
    by_cases hk : p.1 = k
    · simp [findIn, hk]
    · have hk' : ¬ k = p.1 := fun e => hk e.symm
      simp only [findIn, hk, if_false, ih, List.map_cons, List.mem_cons, hk', false_or]

theorem findIn_map (f : β → γ) (l : List (α × β)) :
    findIn k (l.map fun p => (p.1, f p.2)) = (findIn k l).map f := by
  induction l with
  | nil => rfl
  | cons p l ih =>
    by_cases hk : p.1 = k <;> simp [findIn, hk, ih]

theorem insertIn_of_notMem {l : List (α × β)} (h : k ∉ l.map Prod.fst) :
    insertIn k v l = l ++ [(k, v)] := by
  induction l with
  | nil => rfl
  | cons p l ih =>
    simp only [List.map_cons, List.mem_cons, not_or] at h
    have hk : ¬ p.1 = k := fun e => h.1 e.symm
    simp [insertIn, hk, ih h.2]

theorem insertIn_eq_self {l : List (α × β)} (h : findIn k l = some v) : insertIn k v l = l := by
  induction l with
  | nil => cases h
  | cons p l ih =>
    obtain ⟨a, b⟩ := p
    by_cases hk : a = k
    · subst hk
      simp only [findIn, if_true, Option.some.injEq] at h
      simp [insertIn, h]
    · simp only [findIn, hk, if_false] at h
      simp [insertIn, hk, ih h]

/-- A key that is there keeps its place. -/
theorem insertIn_append {l m : List (α × β)} {u : β} (h : k ∉ l.map Prod.fst) :
    insertIn k v (l ++ (k, u) :: m) = l ++ (k, v) :: m := by
  induction l with
  | nil => simp [insertIn]
  | cons p l ih =>
    simp only [List.map_cons, List.mem_cons, not_or] at h
    have hk : ¬ p.1 = k := fun e => h.1 e.symm
    simp [insertIn, hk, ih h.2]

namespace Table

variable {t : Table α β}

theorem find?_eq_some_iff : t.find? k = some v ↔ (k, v) ∈ t.entries :=
  findIn_eq_some_iff t.nodup

theorem find?_eq_none_iff : t.find? k = none ↔ k ∉ t.keys := findIn_eq_none_iff

theorem mem_keys_iff : k ∈ t.keys ↔ ∃ v, t.find? k = some v := by
  rw [← Option.isSome_iff_exists, ← Option.ne_none_iff_isSome, ne_eq, find?_eq_none_iff, not_not]

theorem contains_iff : t.contains k = true ↔ k ∈ t.keys := by
  rw [mem_keys_iff, ← Option.isSome_iff_exists]
  rfl

theorem contains_eq_false_iff : t.contains k = false ↔ t.find? k = none := by
  unfold contains
  simp

/-- A table that goes on with the entries of another one holds them too. -/
theorem find?_of_prefix {t' : Table α β} (h : t.entries <+: t'.entries) (hv : t.find? k = some v) :
    t'.find? k = some v :=
  find?_eq_some_iff.mpr (h.subset (find?_eq_some_iff.mp hv))

theorem find?_map (f : β → γ) : (t.map f).find? k = (t.find? k).map f := findIn_map f t.entries

theorem find?_insertNew (t : Table α β) (k k' : α) (v : β) :
    (t.insertNew k v).find? k' = if k = k' then some ((t.find? k).getD v) else t.find? k' := by
  unfold insertNew
  split
  · next h =>
    obtain ⟨u, hu⟩ := mem_keys_iff.mp (contains_iff.mp h)
    split
    · next he => rw [← he, hu, Option.getD_some]
    · rfl
  · next h => rw [find?_insert, contains_eq_false_iff.mp (Bool.eq_false_iff.mpr h), Option.getD_none]

theorem find?_filter_iff {p : α → β → Bool} :
    (t.filter p).find? k = some v ↔ t.find? k = some v ∧ p k v = true := by
  rw [find?_eq_some_iff, find?_eq_some_iff]
  exact List.mem_filter

/-- A filter leaves the keys of the entries that pass in their order. -/
theorem keys_filter (t : Table α β) (p : α → β → Bool) :
    (t.filter p).keys = t.keys.filter (t.filter p).contains := by
  unfold keys
  rw [List.filter_map]
  refine congrArg (List.map Prod.fst) (List.filter_congr fun q hq => ?_)
  have hv : t.find? q.1 = some q.2 := find?_eq_some_iff.mpr hq
  rw [Bool.eq_iff_iff, Function.comp_apply, contains_iff, mem_keys_iff]
  exact ⟨fun hp => ⟨q.2, find?_filter_iff.mpr ⟨hv, hp⟩⟩, fun ⟨v, h⟩ => by
    obtain ⟨hfind, hp⟩ := find?_filter_iff.mp h
    cases hv.symm.trans hfind
    exact hp⟩

theorem filter_keys_contains (t : Table α β) : t.keys.filter t.contains = t.keys :=
  List.filter_eq_self.mpr fun _ hk => contains_iff.mpr hk

/-- Where a table keeps some keys of another one in their order, an insertion adds at most its own
key to them, at the end. -/
theorem keys_insert_of_filter {u : Table α β} (hu : u.keys = t.keys.filter u.contains)
    (hk : k ∈ t.keys → k ∈ u.keys) : (u.insert k v).keys =
      t.keys.filter (u.insert k v).contains ++ if k ∈ t.keys then [] else [k] := by
  have hcontains : ∀ {k'}, (u.insert k v).contains k' = true ↔ k' = k ∨ u.contains k' = true := by
    intro k'
    rw [contains_iff, contains_iff, keys_insert]
    split
    · next h => exact ⟨.inr, fun h' => h'.elim (· ▸ h) id⟩
    · simp [or_comm]
  have hfilter : k ∉ t.keys ∨ k ∈ u.keys →
      t.keys.filter (u.insert k v).contains = t.keys.filter u.contains := by
    refine fun h => List.filter_congr fun k' hk' => ?_
    rw [Bool.eq_iff_iff, hcontains, or_iff_right_iff_imp]
    rintro rfl
    exact contains_iff.mpr (h.resolve_left (not_not.mpr hk'))
  by_cases h : k ∈ t.keys
  · rw [if_pos h, List.append_nil, hfilter (.inr (hk h)), ← hu, keys_insert, if_pos (hk h)]
  · have hnew : k ∉ u.keys := fun hmem => h (List.mem_of_mem_filter (hu ▸ hmem))
    rw [if_neg h, hfilter (.inl h), ← hu, keys_insert, if_neg hnew]

theorem insert_eq_self (h : t.find? k = some v) : t.insert k v = t :=
  ext_entries (insertIn_eq_self h)

theorem filter_eq_self {p : α → β → Bool} (h : ∀ k v, t.find? k = some v → p k v = true) :
    t.filter p = t :=
  ext_entries (List.filter_eq_self.mpr fun q hq => h q.1 q.2 (find?_eq_some_iff.mpr hq))

theorem map_eq_self {f : β → β} (h : ∀ k v, t.find? k = some v → f v = v) : t.map f = t := by
  refine ext_entries ((List.map_congr_left fun q hq => ?_).trans (List.map_id _))
  exact Prod.ext rfl (h q.1 q.2 (find?_eq_some_iff.mpr hq))

theorem entries_insert_of_notMem (h : k ∉ t.keys) :
    (t.insert k v).entries = t.entries ++ [(k, v)] := insertIn_of_notMem h

theorem keys_insert_of_notMem (h : k ∉ t.keys) : (t.insert k v).keys = t.keys ++ [k] := by
  rw [keys_insert, if_neg h]

theorem foldl_insert_entries {l : List (α × β)} : ∀ {t : Table α β},
    ((t.entries ++ l).map Prod.fst).Nodup →
      (l.foldl (fun t p => t.insert p.1 p.2) t).entries = t.entries ++ l := by
  induction l with
  | nil => simp
  | cons p l ih =>
    intro t h
    have hk : p.1 ∉ t.keys := by
      simp only [List.map_append, List.map_cons, List.nodup_append, List.mem_cons] at h
      intro hm
      exact h.2.2 _ hm _ (Or.inl rfl) rfl
    have he := entries_insert_of_notMem (v := p.2) hk
    rw [List.foldl_cons, ih (by rw [he]; simpa using h), he]
    simp

/-- The table of pairs whose keys are all different has these pairs. -/
theorem entries_ofList {l : List (α × β)} (h : (l.map Prod.fst).Nodup) : (ofList l).entries = l := by
  exact foldl_insert_entries (t := (∅ : Table α β)) h

/-- A table whose values were changed is that of its pairs with the old values. -/
theorem eq_map_ofList {t : Table α γ} {l : List (α × β)} {f : β → γ}
    (h : t.entries = l.map fun q => (q.1, f q.2)) : t = (ofList l).map f := by
  have hnodup : (l.map Prod.fst).Nodup := by
    have hkeys := t.nodup
    rw [h, List.map_map] at hkeys
    exact hkeys
  refine ext_entries (h.trans ?_)
  simp only [map, entries_ofList hnodup]

theorem mem_of_find?_foldl_insert {l : List (α × β)} : ∀ {t : Table α β},
    (l.foldl (fun t p => t.insert p.1 p.2) t).find? k = some v → t.find? k = some v ∨ (k, v) ∈ l := by
  induction l with
  | nil => exact fun h => .inl h
  | cons p l ih =>
    intro t h
    rcases ih h with ht | hl
    · rw [find?_insert] at ht
      split at ht
      · next hk =>
        cases ht
        exact .inr (hk ▸ List.mem_cons_self)
      · exact .inl ht
    · exact .inr (List.mem_cons_of_mem _ hl)

/-- A table of pairs holds nothing else. -/
theorem mem_of_find?_ofList {l : List (α × β)} (h : (ofList l).find? k = some v) : (k, v) ∈ l := by
  rcases mem_of_find?_foldl_insert h with hempty | hl
  · cases hempty
  · exact hl

/-- What is found in a table of one pair is this pair. -/
theorem eq_of_find?_single (h : (ofList [(k, v)]).find? k' = some v') : k' = k ∧ v' = v := by
  have hmem : (k', v') ∈ [(k, v)] := mem_of_find?_ofList h
  exact Prod.mk.inj (List.mem_singleton.mp hmem)

end Table

end Stasis
