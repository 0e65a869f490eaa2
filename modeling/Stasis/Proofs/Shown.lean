import Mathlib
import Stasis.Builtin.Interchange
import Stasis.Proofs.References
import Stasis.Proofs.Run
import Stasis.Proofs.Store
import Stasis.Proofs.Whole

/-!
# Interchange values as objects of a script

An interchange value becomes new objects, one for each of its containers, and nothing that was there
before is changed.

* `Object.Lists`, `Object.IsRecord`: the arrays and the records that stand for containers.
* `Store.Shows`: a value that stands for an interchange value, with objects of a range of numbers.
* `Json.IsScriptable`: the values that come through a script: whole numbers, array lengths, field names.
* `yields_valueOfJson`: the objects are made.
-/

namespace Stasis

/-! ## Arrays and records -/

namespace Object

/-- An array that holds the values, and nothing else. -/
structure Lists (o : Object) (values : List Value) : Prop where
  kind : o.kind = .array
  extensible : o.extensible = true
  length : o.own? .length = some (.data (.number (Number.ofInt values.length)) true false false)
  element : ∀ i v, values[i]? = some v → o.own? (.ofIndex i) = some (.plain v)
  free : ∀ i, values.length ≤ i → o.own? (.ofIndex i) = none

/-- An object that holds values under names, in this order, and nothing else. -/
structure IsRecord (o : Object) (fields : List (String × Value)) : Prop where
  kind : o.kind = .ordinary
  extensible : o.extensible = true
  entries : o.properties.entries = fields.map fun f => (.text f.1, .plain f.2)

variable {o : Object} {values : List Value} {v : Value} {fields : List (String × Value)} {name : String}

theorem ofIndex_injective : Function.Injective Key.ofIndex := by
  intro m n h
  exact referenceOf_injective (congrArg ("ref" ++ ·) (Key.text.inj h))

/-- An element is added behind the last one. -/
theorem Lists.push (h : o.Lists values) (hn : values.length < indexLimit) (v : Value) :
    ∃ o', o.define? (.ofIndex values.length) (.plain v) = some o' ∧ o'.Lists (values ++ [v]) := by
  let length : Descriptor := .data (.number (Number.ofInt (values.length + 1 : ℕ))) true false false
  let longer : Object := { o with properties := o.properties.insert .length length }
  have hallows : o.allows (.ofIndex values.length) (.plain v) = true := by
    unfold allows
    rw [h.free _ le_rfl]
    exact h.extensible
  have hcount : o.arrayLength = values.length := by
    unfold arrayLength
    rw [h.length]
    exact toLength_ofInt (Nat.le_of_lt hn)
  have hprepare : o.prepareArray? (.ofIndex values.length) (.plain v) = some longer := by
    unfold prepareArray? setArrayLength?
    rw [Key.arrayIndex?_ofIndex hn, h.length]
    exact if_pos hcount.le
  refine ⟨{ longer with properties := longer.properties.insert (.ofIndex values.length) (.plain v) },
    ?_, ⟨h.kind, h.extensible, ?_, fun i w hi => ?_, fun i hi => ?_⟩⟩
  · have harray : o.kind.isArray = true := by
      rw [h.kind]
      rfl
    unfold define?
    simp only [if_pos hallows, if_pos harray, hprepare, Option.map_some]
  · rw [own?, Table.find?_insert, if_neg (ofIndex_ne_length _), Table.find?_insert, if_pos rfl,
      List.length_append, List.length_singleton]
  · rw [own?, Table.find?_insert]
    by_cases he : i = values.length
    · subst he
      rw [List.getElem?_concat_length] at hi
      cases hi
      rw [if_pos rfl]
    · have hlt : i < values.length := by
        have := (List.getElem?_eq_some_iff.mp hi).1
        rw [List.length_append, List.length_singleton] at this
        omega
      rw [if_neg fun heq => he (ofIndex_injective heq).symm, Table.find?_insert,
        if_neg (ofIndex_ne_length i).symm]
      rw [List.getElem?_append_left hlt] at hi
      exact h.element i w hi
  · rw [List.length_append, List.length_singleton] at hi
    rw [own?, Table.find?_insert, if_neg fun heq => by have := ofIndex_injective heq; omega,
      Table.find?_insert, if_neg (ofIndex_ne_length i).symm]
    exact h.free i (by omega)

/-- A field is added behind the last one. -/
theorem IsRecord.push (h : o.IsRecord fields) (hnew : name ∉ fields.map Prod.fst) (v : Value) :
    ∃ o', o.define? (.text name) (.plain v) = some o' ∧ o'.IsRecord (fields ++ [(name, v)]) := by
  have hkeys : Key.text name ∉ o.properties.keys := by
    rw [Table.keys, h.entries, List.map_map]
    intro hm
    obtain ⟨f, hf, he⟩ := List.mem_map.mp hm
    exact hnew (List.mem_map.mpr ⟨f, hf, Key.text.inj he⟩)
  have hallows : o.allows (.text name) (.plain v) = true := by
    unfold allows own?
    rw [Table.find?_eq_none_iff.mpr hkeys]
    exact h.extensible
  refine ⟨{ o with properties := o.properties.insert (.text name) (.plain v) }, ?_, h.kind,
    h.extensible, ?_⟩
  · have harray : ¬ o.kind.isArray = true := by
      rw [h.kind]
      exact Bool.false_ne_true
    unfold define?
    simp only [if_pos hallows, if_neg harray, Option.map_some]
  · rw [Table.entries_insert_of_notMem hkeys, h.entries, List.map_append]
    rfl

/-- A field is found under its name. -/
theorem IsRecord.own? (h : o.IsRecord fields) {f : String × Value} (hf : f ∈ fields) :
    o.own? (.text f.1) = some (.plain f.2) := by
  refine Table.find?_eq_some_iff.mpr ?_
  rw [h.entries]
  exact List.mem_map.mpr ⟨f, hf, rfl⟩

/-- Fields whose names are no indices are listed in their order. -/
theorem IsRecord.ownEntries (h : o.IsRecord fields)
    (hnames : ∀ f ∈ fields, (Key.text f.1).arrayIndex? = none) :
    o.ownEntries = fields.map fun f => (.text f.1, .plain f.2) := by
  have hkeys : o.properties.keys = fields.map fun f => .text f.1 := by
    rw [Table.keys, h.entries, List.map_map]
    rfl
  have htext : ∀ k ∈ o.properties.keys, isTextKey k = true ∧ k.arrayIndex? = none := by
    rw [hkeys]
    exact List.forall_mem_map.mpr fun f hf => ⟨rfl, hnames f hf⟩
  have hindex : indexKeys o.properties.keys = [] := by
    refine List.eq_nil_iff_forall_not_mem.mpr fun k hk => ?_
    obtain ⟨hk, hsome⟩ := mem_indexKeys_iff.mp hk
    rw [(htext k hk).2] at hsome
    cases hsome
  have htexts : textKeys o.properties.keys = o.properties.keys :=
    List.filter_eq_self.mpr fun k hk => by simp [htext k hk]
  have hsymbols : symbolKeys o.properties.keys = [] :=
    List.filter_eq_nil_iff.mpr fun k hk => by simp [htext k hk]
  have hownkeys : o.ownKeys = fields.map fun f => .text f.1 := by
    rw [ownKeys_eq, hindex, htexts, hsymbols, List.nil_append, List.append_nil, hkeys]
  rw [Object.ownEntries, hownkeys, List.filterMap_map]
  have hfound : ∀ f ∈ fields, ((fun k => (o.own? k).map fun d => (k, d)) ∘ fun f => .text f.1) f
      = some (Key.text f.1, Descriptor.plain f.2) := fun f hf => by
    simp only [Function.comp_apply, h.own? hf, Option.map_some]
  rw [List.filterMap_congr hfound, List.filterMap_eq_map']

/-- The names of a record are its enumerable text keys. -/
theorem IsRecord.enumerableNames (h : o.IsRecord fields)
    (hnames : ∀ f ∈ fields, (Key.text f.1).arrayIndex? = none) :
    (o.ownEntries.filterMap fun (k, d) => if d.isEnumerable then k.text? else none)
      = fields.map Prod.fst := by
  rw [h.ownEntries hnames, List.filterMap_map]
  have hname : ∀ f : String × Value, some f.1 = (some ∘ Prod.fst) f := fun _ => rfl
  refine (List.filterMap_congr fun f _ => hname f).trans ?_
  rw [List.filterMap_eq_map]

end Object

/-! ## Values that stand for interchange values -/

mutual

/-- The value stands for the interchange value. Its objects have numbers from `lo` on, below `hi`, and
none of them stands inside itself. -/
def Store.Shows (s : Store) (lo hi : ObjectId) : Json → Value → Prop
  | .null, v => v = .null
  | .bool b, v => v = .bool b
  | .number n, v => v = .number n.toFloat
  | .text t, v => v = .text t
  | .array items, v => ∃ id o values, v = .object id ∧ lo ≤ id ∧ id < hi ∧ s.get id = .ok o ∧
      o.Lists values ∧ s.ShowsItems lo id items values
  | .object fields, v => ∃ id o values, v = .object id ∧ lo ≤ id ∧ id < hi ∧ s.get id = .ok o ∧
      o.IsRecord ((fields.map Prod.fst).zip values) ∧ s.ShowsFields (id + 1) hi fields values

/-- The values stand for items. -/
def Store.ShowsItems (s : Store) (lo hi : ObjectId) : List Json → List Value → Prop
  | [], values => values = []
  | j :: rest, values => ∃ v others, values = v :: others ∧ s.Shows lo hi j v ∧
      s.ShowsItems lo hi rest others

/-- The values stand for fields. -/
def Store.ShowsFields (s : Store) (lo hi : ObjectId) : List (String × Json) → List Value → Prop
  | [], values => values = []
  | (_, j) :: rest, values => ∃ v others, values = v :: others ∧ s.Shows lo hi j v ∧
      s.ShowsFields lo hi rest others

end

section Shows

variable {s s' : Store} {lo hi lo' hi' : ObjectId} {j : Json} {v : Value} {items : List Json}
  {fields : List (String × Json)} {values : List Value}

theorem showsItems_iff : s.ShowsItems lo hi items values ↔ List.Forall₂ (s.Shows lo hi) items values := by
  induction items generalizing values with
  | nil => rw [Store.ShowsItems, List.forall₂_nil_left_iff]
  | cons j items ih =>
    rw [Store.ShowsItems, List.forall₂_cons_left_iff]
    simp only [ih]
    exact ⟨fun ⟨v, others, he, hv, hr⟩ => ⟨v, others, hv, hr, he⟩,
      fun ⟨v, others, hv, hr, he⟩ => ⟨v, others, he, hv, hr⟩⟩

theorem showsFields_iff : s.ShowsFields lo hi fields values ↔
    List.Forall₂ (fun f v => s.Shows lo hi f.2 v) fields values := by
  induction fields generalizing values with
  | nil => rw [Store.ShowsFields, List.forall₂_nil_left_iff]
  | cons f fields ih =>
    rw [Store.ShowsFields, List.forall₂_cons_left_iff]
    simp only [ih]
    exact ⟨fun ⟨v, others, he, hv, hr⟩ => ⟨v, others, hv, hr, he⟩,
      fun ⟨v, others, hv, hr, he⟩ => ⟨v, others, he, hv, hr⟩⟩

theorem forall₂_of_mem {α β : Type} {R S : α → β → Prop} {l : List α} {l' : List β}
    (h : List.Forall₂ R l l') (hmem : ∀ a ∈ l, ∀ b, R a b → S a b) : List.Forall₂ S l l' := by
  induction h with
  | nil => exact .nil
  | cons hab _ ih =>
    obtain ⟨ha, hl⟩ := List.forall_mem_cons.mp hmem
    exact .cons (ha _ hab) (ih hl)

/-- **Only the objects of the range matter**, and the range may be wider. -/
theorem Store.Shows.mono (h : s.Shows lo hi j v) (hlo : lo' ≤ lo) (hhi : hi ≤ hi')
    (hs : ∀ id, lo ≤ id → id < hi → s'.get id = s.get id) : s'.Shows lo' hi' j v := by
  induction j using Json.ind generalizing lo hi lo' hi' v with
  | array items ih =>
    obtain ⟨id, o, values, hv, hle, hlt, hget, hlists, hitems⟩ := h
    refine ⟨id, o, values, hv, hlo.trans hle, hlt.trans_le hhi, (hs id hle hlt).trans hget, hlists, ?_⟩
    rw [showsItems_iff] at hitems ⊢
    refine forall₂_of_mem hitems fun item hitem w hw => ih item hitem hw hlo le_rfl fun id' hle' hlt' => ?_
    exact hs id' hle' (hlt'.trans hlt)
  | object fields ih =>
    obtain ⟨id, o, values, hv, hle, hlt, hget, hrecord, hfields⟩ := h
    refine ⟨id, o, values, hv, hlo.trans hle, hlt.trans_le hhi, (hs id hle hlt).trans hget, hrecord, ?_⟩
    rw [showsFields_iff] at hfields ⊢
    refine forall₂_of_mem hfields fun f hf w hw => ih f hf hw le_rfl hhi fun id' hle' hlt' => ?_
    exact hs id' (hle.trans (Nat.le_of_succ_le hle')) hlt'
  | _ => exact h

end Shows

/-! ## Values that come through a script -/

/-- Doubles hold the number exactly. -/
def JsonNumber.IsExact : JsonNumber → Prop
  | int n => n.natAbs < 2 ^ 53
  | double _ => False

instance (n : JsonNumber) : Decidable n.IsExact :=
  match n with
  | .int n => inferInstanceAs (Decidable (n.natAbs < 2 ^ 53))
  | .double _ => isFalse id

/-- The names of fields are given once, and none is an index. -/
def Json.HasNames (j : Json) : Prop :=
  ∀ fields, Json.object fields ∈ j.parts →
    (fields.map Prod.fst).Nodup ∧ ∀ f ∈ fields, (Key.text f.1).arrayIndex? = none

/-- Every array is read with this limit, and a realm can hold it: indices have an end. -/
def Json.HasLengths (limit : ℕ) (j : Json) : Prop :=
  ∀ items, Json.array items ∈ j.parts → items.length ≤ limit ∧ items.length ≤ indexLimit

/-- The items that a value lists. -/
def Json.items? : Json → Option (List Json)
  | .array items => some items
  | _ => none

theorem mem_filterMap_items? {items : List Json} {l : List Json} :
    items ∈ l.filterMap Json.items? ↔ Json.array items ∈ l := by
  rw [List.mem_filterMap]
  refine ⟨?_, fun h => ⟨_, h, rfl⟩⟩
  rintro ⟨k, hk, h⟩
  cases k with
  | array others => cases h; exact hk
  | _ => cases h

instance (limit : ℕ) (j : Json) : Decidable (j.HasLengths limit) :=
  decidable_of_iff (∀ items ∈ j.parts.filterMap Json.items?,
      items.length ≤ limit ∧ items.length ≤ indexLimit) <|
    forall_congr' fun _ => imp_congr_left mem_filterMap_items?

/-- Every number is one that doubles hold exactly. -/
def Json.HasExactNumbers (j : Json) : Prop := ∀ n, Json.number n ∈ j.parts → n.IsExact

instance (j : Json) : Decidable j.HasExactNumbers :=
  decidable_of_iff (∀ n ∈ j.parts.filterMap Json.number?, n.IsExact) <|
    forall_congr' fun _ => imp_congr_left mem_filterMap_number?

/-- The value comes through a script as it was. -/
structure Json.IsScriptable (limit : ℕ) (j : Json) : Prop where
  names : j.HasNames
  lengths : j.HasLengths limit
  numbers : j.HasExactNumbers

section Scriptable

variable {j : Json} {items : List Json} {fields : List (String × Json)} {limit : ℕ}

theorem parts_subset_item (hj : j ∈ items) : j.parts ⊆ (Json.array items).parts := fun _ hk =>
  List.mem_cons_of_mem _ (mem_partsOfItems.mpr ⟨j, hj, hk⟩)

theorem parts_subset_field {f : String × Json} (hf : f ∈ fields) :
    f.2.parts ⊆ (Json.object fields).parts := fun _ hk =>
  List.mem_cons_of_mem _ (mem_partsOfFields.mpr ⟨f, hf, hk⟩)

theorem Json.IsScriptable.of_subset {k : Json} (h : j.IsScriptable limit) (hk : k.parts ⊆ j.parts) :
    k.IsScriptable limit :=
  ⟨fun fields hf => h.names fields (hk hf), fun items hi => h.lengths items (hk hi),
    fun n hn => h.numbers n (hk hn)⟩

theorem Json.IsScriptable.item (h : (Json.array items).IsScriptable limit) (hj : j ∈ items) :
    j.IsScriptable limit := h.of_subset (parts_subset_item hj)

theorem Json.IsScriptable.field (h : (Json.object fields).IsScriptable limit) {f : String × Json}
    (hf : f ∈ fields) : f.2.IsScriptable limit := h.of_subset (parts_subset_field hf)

end Scriptable

/-! ## Making the objects -/

/-- Objects have been added, and nothing else has changed. -/
structure Store.Extends (s s' : Store) : Prop where
  le : s.size ≤ s'.size
  kept : ∀ id < s.size, s'.get id = s.get id

section Making

variable {s s' s'' : Store} {limit : ℕ}

theorem Store.Extends.refl (s : Store) : s.Extends s := ⟨le_rfl, fun _ _ => rfl⟩

theorem Store.Extends.trans (h : s.Extends s') (h' : s'.Extends s'') : s.Extends s'' :=
  ⟨h.le.trans h'.le, fun id hid => (h'.kept id (hid.trans_le h.le)).trans (h.kept id hid)⟩

theorem Store.extends_push (s : Store) (o : Object) : s.Extends ⟨s.objects.push o⟩ := by
  refine ⟨(Nat.le_succ _).trans_eq (Store.size_push o).symm, fun id hid => ?_⟩
  have hne : id ≠ s.objects.size := Nat.ne_of_lt hid
  unfold Store.get
  rw [Array.getElem?_push, if_neg hne]

/-- What a value stands for does not change when objects are added. -/
theorem Store.Shows.extends {lo hi : ObjectId} {j : Json} {v : Value} (h : s.Shows lo hi j v)
    (hs : s.Extends s') (hhi : hi ≤ s.size) : s'.Shows lo s'.size j v :=
  h.mono le_rfl (hhi.trans hs.le) fun id _ hlt => hs.kept id (hlt.trans_le hhi)

/-- Elements are added to the newest object, which is an array. -/
theorem yields_listElements (r : Realm) (values : List Value) : ∀ {before : List Value} {o : Object},
    o.Lists before → before.length + values.length ≤ indexLimit → ∃ o', o'.Lists (before ++ values) ∧
      Yields (forIn (values.zipIdx before.length) PUnit.unit fun p _ => do
          let _ ← define r.store.size (.ofIndex p.2) (.plain p.1)
          return .yield PUnit.unit)
        { r with store := ⟨r.store.objects.push o⟩ } ()
        { r with store := ⟨r.store.objects.push o'⟩ } := by
  induction values with
  | nil =>
    intro before o h _
    exact ⟨o, by rwa [List.append_nil], yields_forIn_nil _ _⟩
  | cons v values ih =>
    intro before o h hlimit
    rw [List.length_cons] at hlimit
    obtain ⟨o₁, hdefine, h₁⟩ := h.push (by omega) v
    obtain ⟨o', h', hrest⟩ := ih h₁ (by
      rw [List.length_append, List.length_singleton]
      omega)
    refine ⟨o', by rwa [List.append_assoc] at h', ?_⟩
    have hfirst := yields_define (r := { r with store := ⟨r.store.objects.push o⟩ })
      (Store.get_push_size o) hdefine
    rw [show Store.set ⟨r.store.objects.push o⟩ r.store.size o₁ = ⟨r.store.objects.push o₁⟩
      from Store.set_push_size o o₁] at hfirst
    rw [List.length_append, List.length_singleton] at hrest
    exact yields_forIn_cons (hfirst.bind (Yields.pure _ _)) hrest

/-- **A new array lists its elements.** -/
theorem yields_newArray_lists (r : Realm) {values : List Value} (h : values.length ≤ indexLimit) :
    ∃ o, o.Lists values ∧ Yields (newArray values) r r.store.size
      { r with store := ⟨r.store.objects.push o⟩ } := by
  let o₁ : Object := { prototype := some r.known.array, kind := .array }
  let o₂ : Object := { o₁ with properties := (∅ : Table Key Descriptor).insert .length newLength }
  have hdefine : o₁.define? .length newLength = some o₂ := rfl
  have hempty : o₂.Lists [] := by
    refine ⟨rfl, rfl, ?_, nofun, fun i _ => ?_⟩
    · have hzero : (0 : Float) = Number.ofInt 0 := by rfl
      rw [Object.own?, Table.find?_insert, if_pos rfl, newLength, hzero]
      rfl
    · rw [Object.own?, Table.find?_insert, if_neg (Object.ofIndex_ne_length i).symm]
      rfl
  obtain ⟨o, ho, hfilled⟩ := yields_listElements r values hempty (by simpa using h)
  refine ⟨o, ho, (yields_get r).bind ((yields_allocate _ _ r).bind ?_)⟩
  have hfirst := yields_define (r := { r with store := ⟨r.store.objects.push o₁⟩ })
    (Store.get_push_size o₁) hdefine
  rw [show Store.set ⟨r.store.objects.push o₁⟩ r.store.size o₂ = ⟨r.store.objects.push o₂⟩
    from Store.set_push_size o₁ o₂] at hfirst
  exact hfirst.bind (hfilled.bind (Yields.pure _ _))

/-- Wherever it begins, making the value adds objects that show it. -/
def Json.Builds (j : Json) : Prop :=
  ∀ r : Realm, ∃ v s', Yields (valueOfJson j) r v { r with store := s' } ∧ r.store.Extends s' ∧
    s'.Shows r.store.size s'.size j v

/-- Items are made one after another. -/
theorem yields_valuesOfArray {items : List Json} (h : ∀ j ∈ items, j.Builds) (r : Realm) :
    ∃ values s', Yields (valuesOfArray items) r values { r with store := s' } ∧
      r.store.Extends s' ∧ List.Forall₂ (s'.Shows r.store.size s'.size) items values := by
  induction items generalizing r with
  | nil => exact ⟨[], r.store, Yields.pure _ r, .refl _, .nil⟩
  | cons j items ih =>
    obtain ⟨hj, hitems⟩ := List.forall_mem_cons.mp h
    obtain ⟨v, s₁, hv, hs₁, hshows⟩ := hj r
    obtain ⟨values, s', hvalues, hs', hrest⟩ := ih hitems { r with store := s₁ }
    refine ⟨v :: values, s', hv.bind (hvalues.bind (Yields.pure _ _)), hs₁.trans hs', ?_⟩
    refine .cons (hshows.extends hs' le_rfl) (hrest.imp fun k w hw => ?_)
    exact hw.mono hs₁.le le_rfl fun _ _ _ => rfl

/-- **Fields are made one after another**, and given to their object, which is older than what they
hold. -/
theorem yields_addFields {fields : List (String × Json)} (h : ∀ f ∈ fields, f.2.Builds)
    {id : ObjectId} (r : Realm) : ∀ {o : Object} {before : List (String × Value)},
    r.store.get id = .ok o → o.IsRecord before → (before.map Prod.fst ++ fields.map Prod.fst).Nodup →
      ∃ o' values s', Yields (addFields id fields) r () { r with store := s' } ∧
        r.store.size ≤ s'.size ∧ (∀ id' < r.store.size, id' ≠ id → s'.get id' = r.store.get id') ∧
        s'.get id = .ok o' ∧ o'.IsRecord (before ++ (fields.map Prod.fst).zip values) ∧
        List.Forall₂ (fun f v => s'.Shows (id + 1) s'.size f.2 v) fields values := by
  induction fields generalizing r with
  | nil =>
    intro o before hget hrecord _
    refine ⟨o, [], r.store, Yields.pure _ r, le_rfl, fun _ _ _ => rfl, hget, ?_, .nil⟩
    simpa using hrecord
  | cons f fields ih =>
    intro o before hget hrecord hnodup
    obtain ⟨hf, hfields⟩ := List.forall_mem_cons.mp h
    have hid : id < r.store.size := Store.lt_size_of_get hget
    obtain ⟨v, s₁, hv, hs₁, hshows⟩ := hf r
    have hget₁ : s₁.get id = .ok o := (hs₁.kept id hid).trans hget
    have hnew : f.1 ∉ before.map Prod.fst := fun hm =>
      (List.nodup_append.mp hnodup).2.2 _ hm _ List.mem_cons_self rfl
    obtain ⟨o₁, hdefine, hrecord₁⟩ := hrecord.push hnew v
    -- the object gets the field, and what the field holds is newer
    let s₂ : Store := s₁.set id o₁
    have hget₂ : s₂.get id = .ok o₁ := Store.get_set_self (Store.lt_size_of_get hget₁)
    have hsize₂ : s₂.size = s₁.size := Store.size_set id o₁
    have hadd : Yields (addProperty id (.text f.1) v) { r with store := s₁ } ()
        { r with store := s₂ } :=
      (yields_objectAt hget₁).bind ((yields_define hget₁ hdefine).bind (Yields.pure _ _))
    obtain ⟨o', values, s', hrest, hle, hkept, hget', hrecord', hall⟩ :=
      ih hfields { r with store := s₂ } hget₂ hrecord₁ (by
        rw [List.map_append, List.append_assoc]
        exact hnodup)
    have hkept' : ∀ id' < s₁.size, id' ≠ id → s'.get id' = s₁.get id' := fun id' hlt hne =>
      (hkept id' (hlt.trans_eq hsize₂.symm) hne).trans (Store.get_set_of_ne hne.symm)
    refine ⟨o', v :: values, s', hv.bind (hadd.bind hrest), ?_, fun id' hlt hne => ?_, hget', ?_,
      .cons ?_ hall⟩
    · exact hs₁.le.trans (hsize₂.symm.le.trans hle)
    · exact (hkept' id' (hlt.trans_le hs₁.le) hne).trans (hs₁.kept id' hlt)
    · rwa [List.append_assoc] at hrecord'
    · exact hshows.mono hid (hsize₂.symm.le.trans hle) fun id' hle' hlt =>
        hkept' id' hlt (Nat.ne_of_gt (hid.trans_le hle'))

/-- **The objects of an interchange value are made**, and nothing that was there is changed. -/
theorem yields_valueOfJson {j : Json} (h : j.IsScriptable limit) : j.Builds := by
  induction j using Json.ind with
  | array items ih =>
    intro r
    obtain ⟨values, s₁, hvalues, hs₁, hshows⟩ :=
      yields_valuesOfArray (fun j hj => ih j hj (h.item hj)) r
    have hlength : values.length ≤ indexLimit := by
      rw [← hshows.length_eq]
      exact (h.lengths items List.mem_cons_self).2
    obtain ⟨o, ho, hmade⟩ := yields_newArray_lists { r with store := s₁ } hlength
    have hpush := s₁.extends_push o
    refine ⟨.object s₁.size, ⟨s₁.objects.push o⟩, hvalues.bind (hmade.bind (Yields.pure _ _)),
      hs₁.trans hpush, s₁.size, o, values, rfl, hs₁.le, ?_, Store.get_push_size o, ho, ?_⟩
    · rw [Store.size_push]
      exact Nat.lt_succ_self _
    · rw [showsItems_iff]
      exact hshows.imp fun k w hw => hw.mono le_rfl le_rfl fun id' _ hlt => hpush.kept id' hlt
  | object fields ih =>
    intro r
    let o₁ : Object := { prototype := some r.known.object, kind := .ordinary }
    let s₁ : Store := ⟨r.store.objects.push o₁⟩
    have hpush := r.store.extends_push o₁
    have hsize₁ : s₁.size = r.store.size + 1 := Store.size_push o₁
    have hempty : o₁.IsRecord [] := ⟨rfl, rfl, rfl⟩
    obtain ⟨o, values, s', hadd, hle, hkept, hget, hrecord, hshows⟩ :=
      yields_addFields (fun f hf => ih f hf (h.field hf)) { r with store := s₁ }
        (Store.get_push_size o₁) hempty (h.names fields List.mem_cons_self).1
    have hnew : Yields newObject r r.store.size { r with store := s₁ } :=
      (yields_get r).bind (yields_allocate _ _ r)
    refine ⟨.object r.store.size, s', hnew.bind (hadd.bind (Yields.pure _ _)), ⟨?_, fun id hid => ?_⟩,
      r.store.size, o, values, rfl, le_rfl, ?_, hget, hrecord, ?_⟩
    · exact hpush.le.trans hle
    · exact (hkept id (hid.trans_le hpush.le) (Nat.ne_of_lt hid)).trans (hpush.kept id hid)
    · exact (Nat.lt_succ_self _).trans_le (hsize₁.symm.le.trans hle)
    · exact showsFields_iff.mpr hshows
  | null => exact fun r => ⟨_, r.store, Yields.pure _ r, .refl _, rfl⟩
  | bool b => exact fun r => ⟨_, r.store, Yields.pure _ r, .refl _, rfl⟩
  | number n => exact fun r => ⟨_, r.store, Yields.pure _ r, .refl _, rfl⟩
  | text s => exact fun r => ⟨_, r.store, Yields.pure _ r, .refl _, rfl⟩

end Making

end Stasis
