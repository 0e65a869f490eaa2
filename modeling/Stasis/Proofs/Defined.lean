import Mathlib
import Stasis.Proofs.Lengths

/-!
# Definitions take effect as a whole, or not at all

Defining an own property checks the property that is there, the object and, on an array, the length,
which may change on the way. Which definitions are refused is told by a few rules. What is refused
changes nothing; what is not refused changes what it says, and on an array what it has to.

* `Descriptor.Forbids`: what a property that is not configurable cannot become, rule by rule.
* `Object.Refuses`: the definitions that an object refuses.
* `Object.define?_eq_none_iff`: there are no others.
* `Object.IsDefined`: what a definition makes of an object, with a lemma for each case of
`Object.Readies`.
* `define_allOrNothing`: every definition is refused and changes nothing, or does what it should.
-/

namespace Stasis

/-! ## What is refused -/

/-- A property that is not configurable cannot become configurable, change its enumerability or its
kind, or get other accessors; a value that cannot be written to stays so and stays the same. -/
inductive Descriptor.Forbids (current new : Descriptor) : Prop
  | configurable (fixed : current.isConfigurable = false) (h : new.isConfigurable = true)
  | enumerable (fixed : current.isConfigurable = false) (h : new.isEnumerable ≠ current.isEnumerable)
  | kind (fixed : current.isConfigurable = false) (h : new.isData ≠ current.isData)
  | writable {v v' : Value} {e e' c' : Bool} (hcurrent : current = .data v false e false)
    (hnew : new = .data v' true e' c')
  | value {v v' : Value} {e w' e' c' : Bool} (hcurrent : current = .data v false e false)
    (hnew : new = .data v' w' e' c') (h : v.sameValue v' = false)
  | getter {g s g' s' : Option ObjectId} {e e' c' : Bool} (hcurrent : current = .accessor g s e false)
    (hnew : new = .accessor g' s' e' c') (h : g ≠ g')
  | setter {g s g' s' : Option ObjectId} {e e' c' : Bool} (hcurrent : current = .accessor g s e false)
    (hnew : new = .accessor g' s' e' c') (h : s ≠ s')

/-- A property allows what none of the rules forbids. -/
theorem Descriptor.allows_eq_false_iff {current new : Descriptor} :
    current.allows new = false ↔ current.Forbids new := by
  constructor
  · intro h
    unfold allows at h
    simp only [Bool.or_eq_false_iff, Bool.and_eq_false_iff, Bool.not_eq_false', beq_eq_false_iff_ne]
      at h
    obtain ⟨fixed, (hc | he) | hrest⟩ := h
    · exact .configurable fixed hc
    · exact .enumerable fixed he
    · cases current with
      | data v w e c =>
        cases (fixed : c = false)
        cases new with
        | accessor => exact .kind rfl nofun
        | data v' w' e' c' =>
          simp only [Bool.or_eq_false_iff, Bool.and_eq_false_iff, Bool.not_eq_false'] at hrest
          obtain ⟨rfl, rfl | hv⟩ := hrest
          · exact .writable rfl rfl
          · exact .value rfl rfl hv
      | accessor g s e c =>
        cases (fixed : c = false)
        cases new with
        | data => exact .kind rfl nofun
        | accessor g' s' e' c' =>
          simp only [Bool.and_eq_false_iff, beq_eq_false_iff_ne] at hrest
          exact hrest.elim (.getter rfl rfl) (.setter rfl rfl)
  · rintro (⟨fixed, h⟩ | ⟨fixed, h⟩ | ⟨fixed, h⟩ | ⟨rfl, rfl⟩ | ⟨rfl, rfl, h⟩ | ⟨rfl, rfl, h⟩ |
      ⟨rfl, rfl, h⟩)
    · simp [allows, fixed, h]
    · simp [allows, fixed, h]
    · cases current <;> cases new <;> simp_all [allows, isData]
    all_goals simp [allows, isConfigurable, *]

namespace Object

variable {o : Object} {key : Key} {d : Descriptor} {index : ℕ} {x : Float}

/-- The length is a value that can be written to. -/
def HasWritableLength (o : Object) : Prop := ∃ v e c, o.own? .length = some (.data v true e c)

/-- The definitions that an object refuses: of a new property if the object cannot grow, what the
property that is there forbids, and an index at or behind a length that cannot be written to. -/
inductive Refuses (o : Object) (key : Key) (d : Descriptor) : Prop
  | closed (absent : o.own? key = none) (h : o.extensible = false)
  | forbidden {current : Descriptor} (found : o.own? key = some current) (h : current.Forbids d)
  | stuck {index : ℕ} (hbehind : o.IsBehind key index) (h : ¬ o.HasWritableLength)

theorem setArrayLength?_eq_none_iff (n : ℕ) : o.setArrayLength? n = none ↔ ¬ o.HasWritableLength := by
  unfold setArrayLength? HasWritableLength
  rcases o.own? .length with _ | ⟨_, _ | _, _, _⟩ | _ <;> simp

theorem prepareArray?_eq_none_iff : o.prepareArray? key d = none ↔
    ∃ index, key.arrayIndex? = some index ∧ o.arrayLength ≤ index ∧ ¬ o.HasWritableLength := by
  unfold prepareArray?
  cases key.arrayIndex? with
  | some index =>
    by_cases hbehind : o.arrayLength ≤ index <;>
      simp [hbehind, setArrayLength?_eq_none_iff]
  | none =>
    simp only [reduceCtorEq, false_and, exists_false, iff_false]
    split
    · split <;> nofun
    · nofun

theorem allows_eq_false_iff : o.allows key d = false ↔
    (o.own? key = none ∧ o.extensible = false) ∨
      ∃ current, o.own? key = some current ∧ current.Forbids d := by
  unfold allows
  cases o.own? key with
  | none => simp
  | some current => simp [Descriptor.allows_eq_false_iff]

/-- **What an object refuses is told by the rules**, and nothing else is refused. -/
theorem define?_eq_none_iff : o.define? key d = none ↔ o.Refuses key d := by
  have hstuck : (o.kind.isArray = true ∧ o.prepareArray? key d = none) ↔
      ∃ index, o.IsBehind key index ∧ ¬ o.HasWritableLength := by
    rw [prepareArray?_eq_none_iff]
    exact ⟨fun ⟨ha, i, hi, hb, hw⟩ => ⟨i, ⟨ha, hi, hb⟩, hw⟩,
      fun ⟨i, ⟨ha, hi, hb⟩, hw⟩ => ⟨ha, i, hi, hb, hw⟩⟩
  have hdefine : o.define? key d = none ↔
      o.allows key d = false ∨ (o.kind.isArray = true ∧ o.prepareArray? key d = none) := by
    unfold define?
    cases o.allows key d <;> cases o.kind.isArray <;> simp
  rw [hdefine, hstuck, allows_eq_false_iff]
  constructor
  · rintro ((⟨absent, h⟩ | ⟨current, found, h⟩) | ⟨index, hbehind, h⟩)
    · exact .closed absent h
    · exact .forbidden found h
    · exact .stuck hbehind h
  · rintro (⟨absent, h⟩ | ⟨found, h⟩ | ⟨hbehind, h⟩)
    · exact .inl (.inl ⟨absent, h⟩)
    · exact .inl (.inr ⟨_, found, h⟩)
    · exact .inr ⟨_, hbehind, h⟩

/-! ## What a definition makes of an object -/

/-- The key is that of a configurable element from index `n` on. -/
def IsLoose (o : Object) (n : ℕ) (key : Key) : Prop :=
  ∃ index d, key.arrayIndex? = some index ∧ n ≤ index ∧ o.own? key = some d ∧
    d.isConfigurable = true

theorem IsLoose.ne_length {n : ℕ} (h : o.IsLoose n key) : key ≠ .length :=
  let ⟨_, _, hindex, _⟩ := h
  ne_length_of_arrayIndex? hindex

/-- An array cut short keeps all but its loose elements. -/
theorem own?_truncateArray_iff {n : ℕ} {c : Descriptor} :
    (o.truncateArray n).own? key = some c ↔ o.own? key = some c ∧ ¬ o.IsLoose n key := by
  rw [own?, truncateArray, Table.find?_filter_iff]
  refine and_congr_right fun hfind => ?_
  cases hindex : key.arrayIndex? with
  | none =>
    refine iff_of_true rfl ?_
    rintro ⟨_, _, h, _⟩
    cases hindex.symm.trans h
  | some index =>
    simp only [Bool.or_eq_true, decide_eq_true_eq, Bool.not_eq_true']
    constructor
    · rintro hstays ⟨i, c', hi, hn, hc', hconfigurable⟩
      cases hindex.symm.trans hi
      cases hfind.symm.trans hc'
      exact hstays.elim (not_lt.mpr hn) (ne_false_of_eq_true hconfigurable)
    · intro hloose
      by_contra hgone
      rw [not_or, not_lt, Bool.not_eq_false] at hgone
      exact hloose ⟨index, c, hindex, hgone.1, hfind, hgone.2⟩

theorem IsLoose.own?_truncateArray {n : ℕ} (h : o.IsLoose n key) :
    (o.truncateArray n).own? key = none :=
  Option.eq_none_iff_forall_ne_some.mpr fun _ hc => (own?_truncateArray_iff.mp hc).2 h

theorem own?_truncateArray {n : ℕ} (h : ¬ o.IsLoose n key) :
    (o.truncateArray n).own? key = o.own? key :=
  Option.ext fun _ => own?_truncateArray_iff.trans (and_iff_left h)

/-- What a definition makes of an object. The property is as it was defined. An array whose length it
reaches gets a length just above the index, one that gets a number as its length loses the
configurable elements from there on, and nothing else changes. Properties keep their order, and a new
one comes last. -/
structure IsDefined (o : Object) (key : Key) (d : Descriptor) (o' : Object) : Prop where
  stored : o'.own? key = some d
  prototype : o'.prototype = o.prototype
  extensible : o'.extensible = o.extensible
  kind : o'.kind = o.kind
  longer : ∀ index, o.IsBehind key index → o'.arrayLength = index + 1 ∧
    ∃ v e c, o.own? .length = some (.data v true e c) ∧
      o'.own? .length = some (.data (.number (Number.ofInt (index + 1 : ℕ))) true e c)
  shorter : ∀ x, o.SetsLength key d x → ∀ key', o.IsLoose (toLength x) key' → o'.own? key' = none
  others : ∀ key', key' ≠ key → (∀ index, o.IsBehind key index → key' ≠ .length) →
    (∀ x, o.SetsLength key d x → ¬ o.IsLoose (toLength x) key') → o'.own? key' = o.own? key'
  order : o'.properties.keys = o.properties.keys.filter o'.properties.contains
    ++ if key ∈ o.properties.keys then [] else [key]

/-- The length that an array gets to make room for an index behind its end. -/
theorem isDefined_longer {v : Value} {e c : Bool} (hbehind : o.IsBehind key index)
    (hlength : o.own? .length = some (.data v true e c)) :
    o.IsDefined key d { o with properties := (o.properties.insert .length
      (.data (.number (Number.ofInt (index + 1 : ℕ))) true e c)).insert key d } := by
  have hne : key ≠ .length := ne_length_of_arrayIndex? hbehind.denotes
  have hlimit : index + 1 ≤ 0xFFFFFFFF := arrayIndex?_lt hbehind.denotes
  have hmem : Key.length ∈ o.properties.keys := Table.mem_keys_iff.mpr ⟨_, hlength⟩
  set length : Descriptor := .data (.number (Number.ofInt (index + 1 : ℕ))) true e c with hnew
  set o' : Object := { o with properties := (o.properties.insert .length length).insert key d }
  have hown : ∀ key', o'.own? key' = if key = key' then some d
      else if Key.length = key' then some length else o.own? key' := fun key' => by
    rw [own?, Table.find?_insert, Table.find?_insert]
    rfl
  have hlonger : o'.own? .length = some length := by rw [hown, if_neg hne, if_pos rfl]
  refine ⟨by rw [hown, if_pos rfl], rfl, rfl, rfl, fun i hi => ?_, fun x hs => absurd hs.key hne,
    fun key' hkey' hothers _ => ?_, ?_⟩
  · cases hbehind.denotes.symm.trans hi.denotes
    exact ⟨(arrayLength_eq hlonger).trans (toLength_ofInt hlimit), v, e, c, hlength, hlonger⟩
  · rw [hown, if_neg hkey'.symm, if_neg (hothers index hbehind).symm]
  · -- the length was there before, so it stays at its place
    have hkeys : (o.properties.insert .length length).keys = o.properties.keys := by
      rw [Table.keys_insert, if_pos hmem]
    refine Table.keys_insert_of_filter ?_ fun hkey => hkeys ▸ hkey
    rw [← hkeys, Table.filter_keys_contains]

/-- An array that gets a number as its length loses elements. -/
theorem isDefined_shorter (hsets : o.SetsLength key d x) :
    o.IsDefined key d { o with properties :=
      (o.truncateArray (toLength x)).properties.insert key d } := by
  have hbehind : ∀ index, ¬ o.IsBehind key index :=
    fun _ hb => ne_length_of_arrayIndex? hb.denotes hsets.key
  set o' : Object := { o with properties :=
    (o.truncateArray (toLength x)).properties.insert key d }
  have hown : ∀ key', o'.own? key' = if key = key' then some d
      else (o.truncateArray (toLength x)).own? key' := fun _ => Table.find?_insert ..
  refine ⟨by rw [hown, if_pos rfl], rfl, rfl, rfl, fun i hi => absurd hi (hbehind i),
    fun y hy key' hloose => ?_, fun key' hkey' _ hothers => ?_, ?_⟩
  · cases hsets.value.symm.trans hy.value
    have hkey' : key ≠ key' := by
      rintro rfl
      exact hloose.ne_length hsets.key
    rw [hown, if_neg hkey', hloose.own?_truncateArray]
  · rw [hown, if_neg hkey'.symm, own?_truncateArray (hothers x hsets)]
  · refine Table.keys_insert_of_filter (Table.keys_filter _ _) fun hmem => ?_
    obtain ⟨c, hc⟩ := Table.mem_keys_iff.mp hmem
    have hstays : ¬ o.IsLoose (toLength x) key := fun hloose => hloose.ne_length hsets.key
    exact Table.mem_keys_iff.mpr ⟨c, own?_truncateArray_iff.mpr ⟨hc, hstays⟩⟩

/-- Every other definition leaves the other properties alone. -/
theorem isDefined_insert (hbehind : ∀ index, ¬ o.IsBehind key index)
    (hsets : ∀ x, ¬ o.SetsLength key d x) :
    o.IsDefined key d { o with properties := o.properties.insert key d } := by
  refine ⟨by rw [own?, Table.find?_insert, if_pos rfl], rfl, rfl, rfl,
    fun i hi => absurd hi (hbehind i), fun x hx => absurd hx (hsets x), fun key' hkey' _ _ => ?_,
    Table.keys_insert_of_filter (Table.filter_keys_contains _).symm id⟩
  rw [own?, Table.find?_insert, if_neg hkey'.symm, own?]

theorem isDefined_of_define? {o' : Object} (h : o.define? key d = some o') :
    o.IsDefined key d o' := by
  obtain ⟨-, u, hu, rfl⟩ := readies_of_define? h
  cases hu with
  | lengthened hbehind hlength => exact isDefined_longer hbehind hlength
  | shortened hsets => exact isDefined_shorter hsets
  | same hbehind hsets => exact isDefined_insert hbehind hsets

end Object

/-! ## All or nothing -/

/-- **A definition that a rule refuses changes nothing, and every other one does what it should and
no more.** -/
theorem define_allOrNothing (o : Object) (key : Key) (d : Descriptor) :
    (o.Refuses key d ∧ o.define key d = (o, false)) ∨
      (¬ o.Refuses key d ∧ ∃ o', o.define key d = (o', true) ∧ o.IsDefined key d o') := by
  rw [Object.define_eq, ← Object.define?_eq_none_iff]
  cases h : o.define? key d with
  | none => exact .inl ⟨rfl, rfl⟩
  | some o' => exact .inr ⟨nofun, o', rfl, Object.isDefined_of_define? h⟩

end Stasis
