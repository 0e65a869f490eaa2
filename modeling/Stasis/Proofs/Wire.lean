import Mathlib
import Stasis.Envelope.Payload

/-!
# Written forms that read back

A payload is the one part of an entry that is written as an interchange value.

* `Tagged.ofJson?_toJson`, `Tagged.ofNested?_toJson`: a flat tagged value reads back.
* `Payload.ofJson?_toJson`: the payload of a data object reads back.
* `Payload.payloadValues_toJson`: the tagged values in any payload are found again.
-/

namespace Stasis

/-! ## Tagged values -/

/-- The value holds no array and no record. -/
def Tagged.IsFlat : Tagged → Prop
  | .simple (.array _) | .simple (.object _) => False
  | _ => True

namespace Tagged

variable {t : Tagged}

theorem normal_of_isFlat {j : Json} (h : (simple j).IsFlat) : j.normal = j := by
  cases j with
  | array _ => exact h.elim
  | object _ => exact h.elim
  | _ => simp only [Json.normal]

/-- The tag of a flat value, and what is behind it. -/
theorem splitTag?_toJson (t : Tagged) :
    ∃ tag parts, splitTag? "type" t.toJson = some (.text tag, parts)
      ∧ (t.IsFlat → ofParts? tag parts = some t) := by
  cases t with
  | simple j =>
    refine ⟨_, _, rfl, fun h => ?_⟩
    simp [ofParts?, Fields.ofJson, knownFields, required?, normal_of_isFlat h]
  | ownSymbol reference description => cases description <;> exact ⟨_, _, rfl, fun _ => rfl⟩
  | _ => exact ⟨_, _, rfl, fun _ => rfl⟩

/-- **A flat value reads back.** -/
theorem ofJson?_toJson (h : t.IsFlat) : ofJson? t.toJson = some t := by
  obtain ⟨tag, parts, hs, hp⟩ := splitTag?_toJson t
  simp [ofJson?, hs, Json.text?, hp h]

theorem ofNested?_toJson (h : t.IsFlat) : ofNested? t.toJson = some t := by
  obtain ⟨tag, parts, hs, hp⟩ := splitTag?_toJson t
  simp [ofNested?, hs, Json.text?, hp h]

theorem payloadValues_toJson (h : t.IsFlat) : payloadValues t.toJson = [t] := by
  have hread := ofJson?_toJson h
  have hobj : ∃ fields, t.toJson = .object fields ∧ (fields.lookup "type").isSome := by
    cases t <;> exact ⟨_, rfl, rfl⟩
  obtain ⟨fields, hf, htype⟩ := hobj
  obtain ⟨tag, htag⟩ := Option.isSome_iff_exists.mp htype
  rw [hf] at hread ⊢
  simp [payloadValues, htag, hread]

theorem list?_toJson {l : List Tagged} (h : ∀ t ∈ l, t.IsFlat) :
    (l.map toJson).mapM ofJson? = some l := by
  induction l with
  | nil => rfl
  | cons t l ih =>
    obtain ⟨ht, hts⟩ := List.forall_mem_cons.mp h
    simp [List.map_cons, List.mapM_cons, ofJson?_toJson ht, ih hts]

end Tagged

/-! ## Payloads -/

namespace Payload

/-- The tagged values in a payload. -/
def values : Payload → List Tagged
  | source captures _ => captures.map Prod.snd
  | map entries => entries.flatMap fun p => [p.1, p.2]
  | set elements => elements
  | classPrototype t | member t _ _ | wrapper t | fulfilled t | rejected t | bytes t _ _ => [t]
  | empty | regexp .. | error .. | date _ | pending | buffer .. => []

/-- The type of data objects with the payload. Times are left out, which read back as times that
may differ. -/
def dataType? : Payload → Option ObjectType
  | map _ => some .map
  | set _ => some .set
  | wrapper _ => some .wrapper
  | regexp .. => some .regexp
  | fulfilled _ | rejected _ => some .promise
  | buffer .. => some .buffer
  | bytes .. => some .bytes
  | _ => none

theorem pairs_toJson {entries : List (Tagged × Tagged)}
    (h : ∀ t ∈ (map entries).values, t.IsFlat) :
    (entries.map fun p => Json.array [p.1.toJson, p.2.toJson]).mapM
      (Json.pair? Tagged.ofJson? Tagged.ofJson?) = some entries := by
  induction entries with
  | nil => rfl
  | cons p entries ih =>
    simp only [values, List.flatMap_cons, List.forall_mem_append] at h ih
    obtain ⟨hp, hrest⟩ := h
    have h1 := Tagged.ofJson?_toJson (hp p.1 (by simp))
    have h2 := Tagged.ofJson?_toJson (hp p.2 (by simp))
    simp [List.mapM_cons, Json.pair?, h1, h2, ih hrest]

theorem natural?_ofNat (n : ℕ) : (Json.ofNat n).natural? = some n := by
  simp [Json.ofNat, Json.natural?]

/-- **The payload of a data object reads back.** -/
theorem ofJson?_toJson {p : Payload} {type : ObjectType} (ht : p.dataType? = some type)
    (hp : ∀ t ∈ p.values, t.IsFlat) : ofJson? type p.toJson = some p := by
  cases p <;> simp only [dataType?, Option.some.injEq, reduceCtorEq] at ht <;> subst ht
  case map entries =>
    have h := pairs_toJson hp
    simp [ofJson?, toJson, Fields.ofJson, knownFields, required?, Json.list?, h]
  case set elements =>
    have h := Tagged.list?_toJson (l := elements) hp
    simp [ofJson?, toJson, Fields.ofJson, knownFields, required?, Json.list?, -List.mapM_map, h]
  case wrapper t =>
    have h := Tagged.ofJson?_toJson (hp t (by simp [values]))
    simp [ofJson?, single?, toJson, Fields.ofJson, knownFields, required?, h]
  case regexp => rfl
  case fulfilled t =>
    have h := Tagged.ofNested?_toJson (hp t (by simp [values]))
    simp [ofJson?, promise?, splitTag?, Json.text?, toJson, Fields.ofJson, knownFields, required?, h]
  case rejected t =>
    have h := Tagged.ofNested?_toJson (hp t (by simp [values]))
    simp [ofJson?, promise?, splitTag?, Json.text?, toJson, Fields.ofJson, knownFields, required?, h]
  case buffer =>
    simp [ofJson?, toJson, Fields.ofJson, knownFields, required?, natural?_ofNat, Json.bool?,
      Json.text?, List.lookup]
  case bytes t _ _ =>
    have h := Tagged.ofJson?_toJson (hp t (by simp [values]))
    simp [ofJson?, toJson, Fields.ofJson, knownFields, required?, natural?_ofNat, h, List.lookup]

theorem valuesOfItems_toJson {l : List Tagged} (h : ∀ t ∈ l, t.IsFlat) :
    valuesOfItems (l.map Tagged.toJson) = l := by
  induction l with
  | nil => rfl
  | cons t l ih =>
    obtain ⟨ht, hts⟩ := List.forall_mem_cons.mp h
    simp [valuesOfItems, Tagged.payloadValues_toJson ht, ih hts]

theorem valuesOfItems_pairs {entries : List (Tagged × Tagged)}
    (h : ∀ t ∈ (map entries).values, t.IsFlat) :
    valuesOfItems (entries.map fun p => Json.array [p.1.toJson, p.2.toJson]) =
      (map entries).values := by
  induction entries with
  | nil => rfl
  | cons p entries ih =>
    simp only [values, List.flatMap_cons, List.forall_mem_append] at h ih ⊢
    obtain ⟨hp, hrest⟩ := h
    have h1 := Tagged.payloadValues_toJson (hp p.1 (by simp))
    have h2 := Tagged.payloadValues_toJson (hp p.2 (by simp))
    simp [valuesOfItems, payloadValues, h1, h2, ih hrest]

theorem valuesOfItems_captures {captures : List (String × Tagged)} {text : String}
    (h : ∀ t ∈ (source captures text).values, t.IsFlat) :
    valuesOfItems (captures.map fun c => Json.object [("name", .text c.1), ("value", c.2.toJson)]) =
      (source captures text).values := by
  induction captures with
  | nil => rfl
  | cons c captures ih =>
    simp only [values, List.map_cons, List.forall_mem_cons] at h ih ⊢
    obtain ⟨hc, hrest⟩ := h
    have h1 := Tagged.payloadValues_toJson hc
    simp [valuesOfItems, payloadValues, valuesOfFields, List.lookup, h1, ih hrest]

theorem payloadValues_jsonOfNumber (x : Float) : payloadValues (jsonOfNumber x) = [] := by
  unfold jsonOfNumber
  split
  · rfl
  · split <;> rfl

/-- **The tagged values in a payload are found again.** -/
theorem payloadValues_toJson {p : Payload} (hp : ∀ t ∈ p.values, t.IsFlat) :
    payloadValues p.toJson = p.values := by
  cases p with
  | empty | regexp | buffer | pending => rfl
  | error message name stack => cases stack <;> rfl
  | date time =>
    cases time with
    | none => rfl
    | some x =>
      have h := payloadValues_jsonOfNumber x
      simp [toJson, payloadValues, valuesOfFields, List.lookup, h, values]
  | map entries => simp [toJson, payloadValues, valuesOfFields, List.lookup, valuesOfItems_pairs hp]
  | set elements =>
    have h := valuesOfItems_toJson (l := elements) hp
    simp [toJson, payloadValues, valuesOfFields, List.lookup, h, values]
  | source captures text =>
    have h := valuesOfItems_captures hp
    simp [toJson, payloadValues, valuesOfFields, List.lookup, h]
  | member t _ detached =>
    have h := Tagged.payloadValues_toJson (hp t (by simp [values]))
    cases detached <;> simp [toJson, payloadValues, valuesOfFields, List.lookup, h, values]
  | classPrototype t | wrapper t | fulfilled t | rejected t | bytes t _ _ =>
    have h := Tagged.payloadValues_toJson (hp t (by simp [values]))
    simp [toJson, payloadValues, valuesOfFields, List.lookup, h, values, Json.ofNat]

end Payload

end Stasis
