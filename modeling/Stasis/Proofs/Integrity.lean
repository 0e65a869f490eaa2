import Mathlib
import Stasis.Proofs.Change
import Stasis.Proofs.Properties

/-!
# Integrity of objects

An object that cannot grow, and a property that cannot be configured, are promises: whoever looks at
them later finds them kept. Several operations change a table of properties, each in its own way
(defining checks what was there, an array changes its length on the way or takes elements out,
freezing changes every flag), and no sequence of them breaks a promise.

* `Descriptor.Hardens`: what a property that is not configurable can become.
* `Object.Hardens`: what an object can become.
* `Object.Step.hardens`, `Object.Step.eq_of_isFrozen`: one operation.
* `hardens_afterAll`: any sequence of operations.
-/

namespace Stasis

/-! ## Properties -/

theorem Value.sameValue_refl (v : Value) : v.sameValue v = true := by
  cases v <;> simp [sameValue, strictEquals]

/-- What a property that is not configurable can become. It stays so, and keeps its kind and its
enumerability; accessors keep both halves, and a value that cannot be written to stays the same and
can never be written to. -/
def Descriptor.Hardens : Descriptor → Descriptor → Prop
  | .data v w e _, .data v' w' e' c' =>
    c' = false ∧ e' = e ∧ (w = false → w' = false ∧ v.sameValue v' = true)
  | .accessor g s e _, .accessor g' s' e' c' => c' = false ∧ e' = e ∧ g' = g ∧ s' = s
  | _, _ => False

namespace Descriptor

variable {d d' d'' : Descriptor}

theorem Hardens.refl (h : d.isConfigurable = false) : d.Hardens d := by
  cases d with
  | data v => exact ⟨h, rfl, fun hw => ⟨hw, v.sameValue_refl⟩⟩
  | accessor => exact ⟨h, rfl, rfl, rfl⟩

theorem Hardens.isConfigurable (h : d.Hardens d') : d'.isConfigurable = false := by
  cases d <;> cases d' <;> first | exact h.1 | exact h.elim

theorem Hardens.trans (h : d.Hardens d') (h' : d'.Hardens d'') : d.Hardens d'' := by
  cases d with
  | data v w =>
    cases d' with
    | accessor => exact h.elim
    | data v' w' =>
      cases d'' with
      | accessor => exact h'.elim
      | data v'' w'' =>
        refine ⟨h'.1, h'.2.1.trans h.2.1, fun hw => ?_⟩
        obtain ⟨hw', hv⟩ := h.2.2 hw
        obtain ⟨hw'', hv'⟩ := h'.2.2 hw'
        exact ⟨hw'', by rwa [Value.sameValue_eq hv]⟩
  | accessor =>
    cases d' with
    | data => exact h.elim
    | accessor =>
      cases d'' with
      | data => exact h'.elim
      | accessor =>
        exact ⟨h'.1, h'.2.1.trans h.2.1, h'.2.2.1.trans h.2.2.1, h'.2.2.2.trans h.2.2.2⟩

/-- A property that is not configurable hardens when it is redefined. -/
theorem hardens_of_allows (hc : d.isConfigurable = false) (h : d.allows d' = true) :
    d.Hardens d' := by
  unfold allows at h
  simp only [hc, Bool.false_or, Bool.and_eq_true, Bool.not_eq_true', beq_iff_eq] at h
  obtain ⟨⟨hc', he⟩, hrest⟩ := h
  cases d with
  | data v w =>
    cases d' with
    | accessor => cases hrest
    | data v' w' =>
      refine ⟨hc', he, ?_⟩
      rintro rfl
      simpa using hrest
  | accessor =>
    cases d' with
    | data => cases hrest
    | accessor =>
      simp only [Bool.and_eq_true, beq_iff_eq] at hrest
      exact ⟨hc', he, hrest.1.symm, hrest.2.symm⟩

theorem hardens_sealed (h : d.isConfigurable = false) : d.Hardens d.sealed := by
  cases d with
  | data v => exact ⟨rfl, rfl, fun hw => ⟨hw, v.sameValue_refl⟩⟩
  | accessor => exact ⟨rfl, rfl, rfl, rfl⟩

theorem hardens_frozen (h : d.isConfigurable = false) : d.Hardens d.frozen := by
  cases d with
  | data v => exact ⟨rfl, rfl, fun _ => ⟨rfl, v.sameValue_refl⟩⟩
  | accessor => exact ⟨rfl, rfl, rfl, rfl⟩

/-- A property that can neither be configured nor written to stays as it is. -/
theorem Hardens.eq (h : d.Hardens d') (hc : d.isConfigurable = false)
    (hw : d.isWritable = false) : d' = d := by
  cases d with
  | data v w e c =>
    cases d' with
    | accessor => exact h.elim
    | data v' w' e' c' =>
      obtain ⟨hc', he, hvalue⟩ := h
      obtain ⟨hw', hv⟩ := hvalue hw
      simp only [Descriptor.isConfigurable, isWritable] at hc hw
      rw [hc', he, hw', hc, hw, Value.sameValue_eq hv]
  | accessor g s e c =>
    cases d' with
    | data => exact h.elim
    | accessor g' s' e' c' =>
      obtain ⟨hc', he, hg, hs⟩ := h
      simp only [Descriptor.isConfigurable] at hc
      rw [hc', he, hg, hs, hc]

end Descriptor

/-! ## Objects -/

/-- What an object can become. If it cannot grow, it never can again, gains no key and keeps its
prototype; a property that is not configurable is never taken out, and hardens. -/
structure Object.Hardens (o o' : Object) : Prop where
  extensible : o.extensible = false → o'.extensible = false
  prototype : o.extensible = false → o'.prototype = o.prototype
  keys : o.extensible = false → ∀ key ∈ o'.properties.keys, key ∈ o.properties.keys
  properties : ∀ key d, o.own? key = some d → d.isConfigurable = false →
    ∃ d', o'.own? key = some d' ∧ d.Hardens d'

namespace Object

variable {o o' o'' : Object}

theorem Hardens.refl (o : Object) : o.Hardens o :=
  ⟨id, fun _ => rfl, fun _ _ => id, fun _ d hd hc => ⟨d, hd, .refl hc⟩⟩

theorem Hardens.trans (h : o.Hardens o') (h' : o'.Hardens o'') : o.Hardens o'' where
  extensible he := h'.extensible (h.extensible he)
  prototype he := (h'.prototype (h.extensible he)).trans (h.prototype he)
  keys he key hkey := h.keys he key (h'.keys (h.extensible he) key hkey)
  properties key d hd hc := by
    obtain ⟨d', hd', hhard⟩ := h.properties key d hd hc
    obtain ⟨d'', hd'', hhard'⟩ := h'.properties key d' hd' hhard.isConfigurable
    exact ⟨d'', hd'', hhard.trans hhard'⟩

/-- Nothing that an array does before a property is defined breaks a promise: its length can be
written where it is changed, and elements that are taken out are configurable. -/
theorem Prepares.hardens (h : o.Prepares o') : o.Hardens o' := by
  cases h with
  | same => exact .refl o
  | @lengthened v e c hlength w =>
    refine ⟨id, fun _ => rfl, fun _ key hkey => ?_, fun key d hd hc => ?_⟩
    · have hmem : Key.length ∈ o.properties.keys := Table.mem_keys_iff.mpr ⟨_, hlength⟩
      rwa [Table.keys_insert, if_pos hmem] at hkey
    · by_cases hk : Key.length = key
      · subst hk
        cases hlength.symm.trans hd
        refine ⟨.data w true e c, ?_, hc, rfl, nofun⟩
        rw [own?, Table.find?_insert, if_pos rfl]
      · refine ⟨d, ?_, .refl hc⟩
        rw [own?, Table.find?_insert, if_neg hk]
        exact hd
  | truncated n =>
    refine ⟨id, fun _ => rfl, fun _ key hkey => ?_, fun key d hd hc => ⟨d, ?_, .refl hc⟩⟩
    · obtain ⟨d, hd⟩ := Table.mem_keys_iff.mp hkey
      exact Table.mem_keys_iff.mpr ⟨d, (Table.find?_filter_iff.mp hd).1⟩
    · refine Table.find?_filter_iff.mpr ⟨hd, ?_⟩
      split <;> simp [hc]

/-- What changes every property of an object without breaking a promise. -/
theorem hardens_map {f : Descriptor → Descriptor}
    (hf : ∀ d : Descriptor, d.isConfigurable = false → d.Hardens (f d)) :
    o.Hardens { o with extensible := false, properties := o.properties.map f } := by
  refine ⟨fun _ => rfl, fun _ => rfl, fun _ key hkey => ?_, fun key d hd hc => ⟨f d, ?_, hf d hc⟩⟩
  · rwa [Table.keys_map] at hkey
  · rw [own?] at hd ⊢
    rw [Table.find?_map, hd, Option.map_some]

/-- **No operation breaks a promise of the object that it changes.** -/
theorem Step.hardens (h : o.Step o') : o.Hardens o' := by
  cases h with
  | @defined key d _ h =>
    obtain ⟨hallows, u, hu, rfl⟩ := define?_cases h
    have hprepared := hu.hardens
    refine ⟨hprepared.extensible, hprepared.prototype, fun he key' hkey' => ?_,
      fun key' c hc hfixed => ?_⟩
    · by_cases hk : key' = key
      · subst hk
        unfold allows at hallows
        split at hallows
        · next c hc => exact Table.mem_keys_iff.mpr ⟨c, hc⟩
        · rw [he] at hallows
          cases hallows
      · refine hprepared.keys he key' ?_
        rw [Table.keys_insert] at hkey'
        split at hkey'
        · exact hkey'
        · exact (List.mem_append.mp hkey').resolve_right fun h => hk (List.mem_singleton.mp h)
    · by_cases hk : key = key'
      · subst hk
        refine ⟨d, ?_, Descriptor.hardens_of_allows hfixed ?_⟩
        · rw [own?, Table.find?_insert, if_pos rfl]
        · rwa [allows, hc] at hallows
      · obtain ⟨c', hc', hhard⟩ := hprepared.properties key' c hc hfixed
        refine ⟨c', ?_, hhard⟩
        rw [own?, Table.find?_insert, if_neg hk]
        exact hc'
  | @deleted key c found configurable =>
    refine ⟨id, fun _ => rfl, fun _ key' hkey' => ?_, fun key' d hd hc => ⟨d, ?_, .refl hc⟩⟩
    · rw [Table.keys_erase] at hkey'
      exact List.mem_of_mem_filter hkey'
    · refine Table.find?_filter_iff.mpr ⟨hd, decide_eq_true ?_⟩
      rintro rfl
      cases found.symm.trans hd
      rw [configurable] at hc
      cases hc
  | closed => exact ⟨fun _ => rfl, fun _ => rfl, fun _ _ => id, fun _ d hd hc => ⟨d, hd, .refl hc⟩⟩
  | sealed => exact hardens_map fun _ => Descriptor.hardens_sealed
  | frozen => exact hardens_map fun _ => Descriptor.hardens_frozen

/-! ## Frozen objects -/

theorem isFrozen_iff : o.isFrozen = true ↔ o.extensible = false ∧
    ∀ key d, o.own? key = some d → d.isConfigurable = false ∧ d.isWritable = false := by
  unfold isFrozen
  simp only [Bool.and_eq_true, Bool.not_eq_true', List.all_eq_true]
  refine and_congr_right fun _ => ⟨fun h key d hd => ?_, fun h d hd => ?_⟩
  · exact h d (List.mem_map_of_mem (Table.find?_eq_some_iff.mp hd))
  · obtain ⟨⟨key, _⟩, hq, rfl⟩ := List.mem_map.mp hd
    exact h key _ (Table.find?_eq_some_iff.mpr hq)

/-- An array that is frozen cannot be made longer, and loses no element. -/
theorem Prepares.eq_of_isFrozen (h : o.Prepares o') (hf : o.isFrozen = true) : o' = o := by
  obtain ⟨-, hfixed⟩ := isFrozen_iff.mp hf
  cases h with
  | same => rfl
  | lengthened hlength => cases (hfixed _ _ hlength).2
  | truncated n =>
    unfold truncateArray
    rw [Table.filter_eq_self]
    intro key d hd
    split <;> simp [(hfixed key d hd).1]

/-- **A frozen object stays as it is**, whatever is done to it: its table of properties too, with
the order of its keys. -/
theorem Step.eq_of_isFrozen (h : o.Step o') (hf : o.isFrozen = true) : o' = o := by
  obtain ⟨hclosed, hfixed⟩ := isFrozen_iff.mp hf
  cases h with
  | @defined key d _ h =>
    obtain ⟨hallows, u, hu, rfl⟩ := define?_cases h
    rw [hu.eq_of_isFrozen hf]
    unfold allows at hallows
    split at hallows
    · next c hc =>
      obtain ⟨hconfigurable, hwritable⟩ := hfixed key c hc
      have hd : d = c := (Descriptor.hardens_of_allows hconfigurable hallows).eq hconfigurable hwritable
      rw [Table.insert_eq_self (hd ▸ hc)]
    · rw [hclosed] at hallows
      cases hallows
  | deleted found configurable =>
    rw [(hfixed _ _ found).1] at configurable
    cases configurable
  | closed => rw [← hclosed]
  | sealed =>
    have hself : o.properties.map Descriptor.sealed = o.properties := Table.map_eq_self fun key d hd =>
      (Descriptor.hardens_sealed (hfixed key d hd).1).eq (hfixed key d hd).1 (hfixed key d hd).2
    rw [Object.sealed, hself, ← hclosed]
  | frozen =>
    have hself : o.properties.map Descriptor.frozen = o.properties := Table.map_eq_self fun key d hd =>
      (Descriptor.hardens_frozen (hfixed key d hd).1).eq (hfixed key d hd).1 (hfixed key d hd).2
    rw [Object.frozen, hself, ← hclosed]

end Object

/-! ## Stores -/

/-- One operation keeps the promises of every object. -/
theorem Store.Step.hardens {s s' : Store} {c : Change} {id : ObjectId} {o : Object} (h : s.Step c s')
    (found : s.get id = .ok o) :
    ∃ o', s'.get id = .ok o' ∧ o.Hardens o' ∧ (o.isFrozen = true → o' = o) := by
  cases h with
  | same => exact ⟨o, found, .refl o, fun _ => rfl⟩
  | made prototype kind => exact ⟨o, get_push found, .refl o, fun _ => rfl⟩
  | @changed _ id' u u' hu hstep =>
    by_cases hid : id' = id
    · subst hid
      cases found.symm.trans hu
      exact ⟨u', get_set_self (lt_size_of_get found), hstep.hardens, hstep.eq_of_isFrozen⟩
    · exact ⟨o, (get_set_of_ne hid).trans found, .refl o, fun _ => rfl⟩
  | @linked _ id' u prototype hu hextensible hchain =>
    by_cases hid : id' = id
    · subst hid
      cases found.symm.trans hu
      -- only an object that can grow gets another prototype
      have hopen : ¬ o.extensible = false := by rw [hextensible]; nofun
      refine ⟨_, get_set_self (lt_size_of_get found), ⟨fun h => absurd h hopen,
        fun h => absurd h hopen, fun h => absurd h hopen, fun _ d hd hc => ⟨d, hd, .refl hc⟩⟩,
        fun hf => absurd (Object.isFrozen_iff.mp hf).1 hopen⟩
    · exact ⟨o, (get_set_of_ne hid).trans found, .refl o, fun _ => rfl⟩

/-- **Integrity is never weakened.** Whatever operations follow each other, with whatever arguments
and whichever of them fail: an object that cannot grow stays so, gains no key and keeps its
prototype; a property that is not configurable is never taken out, and hardens; and a frozen object
stays as it is. -/
theorem hardens_afterAll {s : Store} {id : ObjectId} {o : Object} (found : s.get id = .ok o)
    (cs : List Store.Change) :
    ∃ o', (s.afterAll cs).get id = .ok o' ∧ o.Hardens o' ∧ (o.isFrozen = true → o' = o) := by
  refine Store.afterAll_keeps (P := fun s' => ∃ o', s'.get id = .ok o' ∧ o.Hardens o'
    ∧ (o.isFrozen = true → o' = o)) ?_ cs s ⟨o, found, .refl o, fun _ => rfl⟩
  rintro s₁ s₂ c ⟨o₁, ho₁, hhard, hfrozen⟩ hstep
  obtain ⟨o₂, ho₂, hhard', hfrozen'⟩ := hstep.hardens ho₁
  refine ⟨o₂, ho₂, hhard.trans hhard', fun hf => ?_⟩
  have hsame : o₁ = o := hfrozen hf
  subst hsame
  exact hfrozen' hf

/-- An array of one element that was frozen. -/
def frozenArray : Object :=
  Object.frozen {
    prototype := none
    properties := Table.ofList [(.length, .data (.number 1) true false false), (.ofIndex 0, .plain .null)]
    kind := .array }

/-- A frozen array is neither made longer nor shorter, and keeps its element. -/
theorem hardens_afterAll_frozenArray :
    (Store.mk #[frozenArray]).get 0 = .ok frozenArray ∧ frozenArray.isFrozen = true
      ∧ ((Store.mk #[frozenArray]).afterAll [.define 0 (.ofIndex 1) (.plain .null),
          .define 0 .length (.data (.number 0) true false false), .delete 0 (.ofIndex 0),
          .alloc none .ordinary, .setPrototype 0 (some 1), .sealOff 0]).get 0 = .ok frozenArray := by
  have hfrozen : frozenArray.isFrozen = true := by decide +kernel
  obtain ⟨o, hfound, -, hsame⟩ := @hardens_afterAll ⟨#[frozenArray]⟩ 0 frozenArray rfl
    [.define 0 (.ofIndex 1) (.plain .null),
      .define 0 .length (.data (.number 0) true false false), .delete 0 (.ofIndex 0),
      .alloc none .ordinary, .setPrototype 0 (some 1), .sealOff 0]
  rw [hsame hfrozen] at hfound
  exact ⟨rfl, hfrozen, hfound⟩

end Stasis
