import Mathlib
import Stasis.Proofs.Graph
import Stasis.Proofs.Keys
import Stasis.Proofs.References
import Stasis.Proofs.Wire

/-!
# What is written of a value

The written form of a value depends on the references that have been given, and of these only on
those of the symbols and objects that the value is or refers to.

* `Realm.written`, `Realm.writtenEntry`: the written form of a value and of an object.
* `Realm.IsNoted`: a value whose reference has been given, and whose object has its place.
* `Realm.written_of_le`, `Realm.writtenEntry_of_le`: what has been noted is written one way only.
-/

namespace Stasis

/-- The key as a value. -/
def Key.toValue : Key → Value
  | .text s => .text s
  | .symbol id => .symbol id

/-- Everything that the entry of an object refers to. -/
def Object.refers (o : Object) : List Value := o.properties.keys.map Key.toValue ++ o.values

namespace Object

variable {w : Value}

theorem mem_values_iff {o : Object} : w ∈ o.values ↔
    (∃ p, o.prototype = some p ∧ w = .object p)
      ∨ (∃ k d, (k, d) ∈ o.ownEntries ∧ w ∈ d.values) ∨ w ∈ o.kind.values := by
  have h : (∃ d ∈ o.properties.values, w ∈ d.values)
      ↔ ∃ k d, (k, d) ∈ o.ownEntries ∧ w ∈ d.values := by
    simp only [Table.values, List.mem_map, mem_ownEntries_iff, own?, Table.find?_eq_some_iff]
    constructor
    · rintro ⟨d, ⟨⟨k, d'⟩, hm, rfl⟩, hw⟩
      exact ⟨k, d', hm, hw⟩
    · rintro ⟨k, d, hm, hw⟩
      exact ⟨d, ⟨(k, d), hm, rfl⟩, hw⟩
  unfold values
  simp only [List.mem_append, List.mem_flatMap, h, Option.mem_toList, Option.map_eq_some_iff,
    eq_comm]

variable (o : Object)

theorem values_mem_refers (h : w ∈ o.values) : w ∈ o.refers := List.mem_append_right _ h

theorem prototype_mem_refers {p : ObjectId} (h : o.prototype = some p) :
    Value.object p ∈ o.refers :=
  o.values_mem_refers (mem_values_iff.mpr (Or.inl ⟨p, h, rfl⟩))

theorem kind_values_mem_refers (h : w ∈ o.kind.values) : w ∈ o.refers :=
  o.values_mem_refers (mem_values_iff.mpr (Or.inr (Or.inr h)))

theorem property_mem_refers {q : Key × Descriptor} (h : q ∈ o.ownEntries) :
    q.1.toValue ∈ o.refers ∧ ∀ w ∈ q.2.values, w ∈ o.refers := by
  constructor
  · have hk : q.1 ∈ o.properties.keys := Table.mem_keys_iff.mpr ⟨q.2, mem_ownEntries_iff.mp h⟩
    exact List.mem_append_left _ (List.mem_map_of_mem hk)
  · intro w hw
    exact o.values_mem_refers (mem_values_iff.mpr (Or.inr (Or.inl ⟨q.1, q.2, h, hw⟩)))

end Object

/-- The type of objects of a kind. -/
def Kind.type? : Kind → Option ObjectType
  | .ordinary => none
  | .array => some .array
  | .function _ => some .function
  | .map _ => some .map
  | .set _ => some .set
  | .date _ => some .date
  | .regexp .. => some .regexp
  | .error => some .error
  | .wrapper _ => some .wrapper
  | .buffer _ => some .buffer
  | .bytes .. => some .bytes
  | .promise _ => some .promise

namespace Realm

variable (r : Realm) (ρ : References)

/-- The realm with other references. -/
def giving : Realm := { r with references := ρ }

/-- The written form of a symbol. -/
def writtenSymbol (id : SymbolId) : Tagged :=
  match r.symbols.keyFor? id with
  | some key => .sharedSymbol key
  | none => .ownSymbol ((ρ.symbols.find? id).getD "") (r.symbols.description? id)

/-- The written form of a value. -/
def written : Value → Tagged
  | .undefined => .undefined
  | .null => .simple .null
  | .bool b => .simple (.bool b)
  | .text s => .simple (.text s)
  | .number x => taggedNumber x
  | .bigint n => .bigint (Number.integerText n)
  | .symbol id => r.writtenSymbol ρ id
  | .object id =>
    match r.hostPaths.pathOf? id with
    | some path => .hostObject path
    | none => .entry ((ρ.objects.find? id).getD "")

/-- The written form of a property. -/
def writtenSlot : Descriptor → Slot
  | .data v writable enumerable configurable =>
    { value := r.written ρ v, writable, enumerable, configurable }
  | .accessor g s enumerable configurable =>
    let half (id : Option ObjectId) : Value := (id.map Value.object).getD .undefined
    { get := r.written ρ (half g), set := r.written ρ (half s), enumerable, configurable }

/-- The payload of a data object. -/
def writtenPayload : Kind → Payload
  | .map entries => .map (entries.entries.map fun p => (r.written ρ p.1.toValue, r.written ρ p.2))
  | .set elements => .set (elements.keys.map fun k => r.written ρ k.toValue)
  | .wrapper v => .wrapper (r.written ρ v)
  | .regexp pattern flags => .regexp pattern flags
  | .date time => .date (if time.isFinite then some time else none)
  | .promise .pending => .pending
  | .promise (.fulfilled v) => .fulfilled (r.written ρ v)
  | .promise (.rejected v) => .rejected (r.written ρ v)
  | .buffer b =>
    .buffer b.detached b.maxLength.isSome b.bytes.size (b.maxLength.getD b.bytes.size)
      (Text.hexOfBytes b.bytes.toList)
  | .bytes viewed offset length => .bytes (r.written ρ (.object viewed)) offset length
  | _ => .empty

/-- The entry of a data object. -/
def writtenEntry (o : Object) : Entry where
  objectType := (o.kind.type?.map ObjectType.name).getD plainType
  prototype := r.written ρ ((o.prototype.map Value.object).getD .null)
  extensible := o.extensible
  properties := o.ownEntries.map fun p => (r.written ρ p.1.toValue, r.writtenSlot ρ p.2)
  payload := (o.kind.type?.map fun _ => (r.writtenPayload ρ o.kind).toJson).getD .null

/-- The reference of the symbol or object has been given, and the object has its place among the
entries. Shared symbols and objects of the host need neither. -/
def IsNoted (p : Pass) : Value → Prop
  | .symbol id => r.symbols.keyFor? id = none → ∃ reference, ρ.symbols.find? id = some reference
  | .object id => r.hostPaths.contains id = false →
    ∃ reference, ρ.objects.find? id = some reference ∧ p.entries.contains reference = true
  | _ => True

variable {r ρ} {ρ' : References} {p p' : Pass} {v : Value}

theorem IsNoted.mono (hv : r.IsNoted ρ p v) (hρ : ρ.Le ρ')
    (hp : ∀ reference, p.entries.contains reference = true →
      p'.entries.contains reference = true) : r.IsNoted ρ' p' v := by
  cases v with
  | symbol id =>
    intro h
    obtain ⟨reference, hr⟩ := hv h
    exact ⟨reference, hρ.symbols id reference hr⟩
  | object id =>
    intro h
    obtain ⟨reference, hr, hc⟩ := hv h
    exact ⟨reference, hρ.objects id reference hr, hp reference hc⟩
  | _ => trivial

theorem contains_of_pathOf? {id : ObjectId} (h : r.hostPaths.pathOf? id = none) :
    r.hostPaths.contains id = false :=
  Table.contains_eq_false_iff.mpr h

/-- **What has been noted is written one way only**, whatever references are given later. -/
theorem written_of_le (hv : r.IsNoted ρ p v) (hρ : ρ.Le ρ') : r.written ρ' v = r.written ρ v := by
  cases v with
  | symbol id =>
    simp only [written, writtenSymbol]
    cases hk : r.symbols.keyFor? id with
    | some key => rfl
    | none =>
      obtain ⟨reference, hr⟩ := hv hk
      simp only [hr, hρ.symbols id reference hr]
  | object id =>
    simp only [written]
    cases hp : r.hostPaths.pathOf? id with
    | some path => rfl
    | none =>
      obtain ⟨reference, hr, -⟩ := hv (contains_of_pathOf? hp)
      simp only [hr, hρ.objects id reference hr]
  | _ => rfl

theorem writtenSlot_of_le {d : Descriptor} (hd : ∀ w ∈ d.values, r.IsNoted ρ p w)
    (hρ : ρ.Le ρ') : r.writtenSlot ρ' d = r.writtenSlot ρ d := by
  cases d with
  | data v w e c => simp only [writtenSlot, written_of_le (hd v (by simp [Descriptor.values])) hρ]
  | accessor g s e c =>
    have half : ∀ id : Option ObjectId, (∀ f ∈ id, Value.object f ∈ Descriptor.values (.accessor g s e c)) →
        r.written ρ' ((id.map Value.object).getD .undefined)
          = r.written ρ ((id.map Value.object).getD .undefined) := by
      intro id hid
      cases id with
      | none => rfl
      | some f => exact written_of_le (hd _ (hid f rfl)) hρ
    have hg := half g (by rintro f rfl; simp [Descriptor.values])
    have hs := half s (by rintro f rfl; simp [Descriptor.values])
    simp only [writtenSlot, hg, hs]

theorem writtenPayload_of_le {k : Kind} (hk : ∀ w ∈ k.values, r.IsNoted ρ p w)
    (hρ : ρ.Le ρ') : r.writtenPayload ρ' k = r.writtenPayload ρ k := by
  have h : ∀ w ∈ k.values, r.written ρ' w = r.written ρ w := fun w hw => written_of_le (hk w hw) hρ
  unfold writtenPayload
  split <;> simp only [Kind.values, forall_eq, List.mem_flatMap, List.mem_cons,
    List.not_mem_nil, or_false, List.mem_map, forall_exists_index, and_imp] at h
  case h_1 entries =>
    congr 1
    refine List.map_congr_left fun q hq => ?_
    rw [h _ q hq (Or.inl rfl), h _ q hq (Or.inr rfl)]
  case h_2 elements =>
    congr 1
    refine List.map_congr_left fun key hkey => ?_
    rw [h _ key hkey rfl]
  all_goals first | rfl | rw [h]

/-- The entry of an object is written one way only once everything that it refers to is noted. -/
theorem writtenEntry_of_le {o : Object} (ho : ∀ w ∈ o.refers, r.IsNoted ρ p w)
    (hρ : ρ.Le ρ') : r.writtenEntry ρ' o = r.writtenEntry ρ o := by
  have hprototype : r.written ρ' ((o.prototype.map Value.object).getD .null)
      = r.written ρ ((o.prototype.map Value.object).getD .null) := by
    cases hp : o.prototype with
    | none => rfl
    | some id => exact written_of_le (ho _ (o.prototype_mem_refers hp)) hρ
  have hpayload := writtenPayload_of_le (fun w hw => ho w (o.kind_values_mem_refers hw)) hρ
  simp only [writtenEntry, hprototype, hpayload, Entry.mk.injEq, true_and, and_true]
  refine List.map_congr_left fun q hq => ?_
  obtain ⟨hkey, hvalues⟩ := o.property_mem_refers hq
  rw [written_of_le (ho _ hkey) hρ, writtenSlot_of_le (fun w hw => ho w (hvalues w hw)) hρ]

end Realm

end Stasis
