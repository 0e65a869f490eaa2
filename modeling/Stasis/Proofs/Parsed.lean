import Mathlib
import Stasis.Proofs.Formed
import Stasis.Proofs.Printed

/-!
# Envelopes that are read from their text

However deep the objects behind a value are nested, the text of its envelope is flat: an entry stands
in the table of the envelope, and refers to others by name.

* `Envelope.nesting_toJson`: seven containers inside one another, at most.
* `Envelope.restrict_toJson`: every field of an envelope is a known one.
* `parse_compact`: the text of an envelope is read as the envelope.
-/

namespace Stasis

/-! ## Containers inside one another -/

theorem Tagged.nesting_toJson {t : Tagged} (h : t.IsFlat) : t.toJson.nesting ≤ 1 := by
  cases t with
  | simple j =>
    cases j with
    | array _ => exact h.elim
    | object _ => exact h.elim
    | _ => exact le_rfl
  | ownSymbol reference description => cases description <;> exact le_rfl
  | _ => exact le_rfl

theorem Slot.nesting_toJson {s : Slot} (h : ∀ t ∈ s.values, t.IsFlat) : s.toJson.nesting ≤ 2 := by
  refine Nat.succ_le_succ (nestingOfFields_le.mpr fun f hf => ?_)
  have htagged : ∀ o : Option Tagged, o.toList ⊆ s.values → ∀ name,
      f ∈ o.toList.map (fun t => (name, t.toJson)) → f.2.nesting ≤ 1 := by
    intro o ho name hf
    obtain ⟨t, ht, rfl⟩ := List.mem_map.mp hf
    exact Tagged.nesting_toJson (h t (ho ht))
  have hflag : ∀ (o : Option Bool) (name : String),
      f ∈ o.toList.map (fun b => (name, Json.bool b)) → f.2.nesting ≤ 1 := by
    intro o name hf
    obtain ⟨b, -, rfl⟩ := List.mem_map.mp hf
    exact Nat.zero_le _
  simp only [List.mem_append] at hf
  obtain ((((hf | hf) | hf) | hf) | hf) | hf := hf
  · exact htagged s.value (by simp [values]) _ hf
  · exact htagged s.get (by simp [values]) _ hf
  · exact htagged s.set (by simp [values]) _ hf
  · exact hflag _ _ hf
  · exact hflag _ _ hf
  · exact hflag _ _ hf

theorem nesting_pair {a b : Json} {k : ℕ} (ha : a.nesting ≤ k) (hb : b.nesting ≤ k) :
    (Json.array [a, b]).nesting ≤ k + 1 :=
  Nat.succ_le_succ (nestingOfItems_le.mpr (by simp [ha, hb]))

theorem nesting_array {α : Type} {l : List α} {encode : α → Json} {k : ℕ}
    (h : ∀ a ∈ l, (encode a).nesting ≤ k) : (Json.array (l.map encode)).nesting ≤ k + 1 :=
  Nat.succ_le_succ (nestingOfItems_le.mpr (List.forall_mem_map.mpr h))

theorem Payload.nesting_toJson {p : Payload} (h : ∀ t ∈ p.values, t.IsFlat) :
    p.toJson.nesting ≤ 4 := by
  cases p with
  | empty | pending => decide
  | regexp pattern flags => simp [toJson, Json.nesting, nestingOfFields]
  | buffer => simp [toJson, Json.nesting, nestingOfFields, Json.ofNat]
  | error message name stack => cases stack <;> simp [toJson, Json.nesting, nestingOfFields]
  | date time =>
    have hnumber : ∀ x, (jsonOfNumber x).nesting = 0 := by
      intro x
      unfold jsonOfNumber
      split_ifs <;> rfl
    cases time <;> simp [toJson, Json.nesting, nestingOfFields, hnumber]
  | classPrototype t | wrapper t | fulfilled t | rejected t | bytes t =>
    have ht := Tagged.nesting_toJson (h t (by simp [values]))
    simp [toJson, Json.nesting, nestingOfFields, Json.ofNat]
    omega
  | member t expression detached =>
    have ht := Tagged.nesting_toJson (h t (by simp [values]))
    cases detached <;> simp [toJson, Json.nesting, nestingOfFields] <;> omega
  | source captures text =>
    have hcaptures : (Json.array (captures.map fun c => Json.object [("name", .text c.1),
        ("value", c.2.toJson)])).nesting ≤ 3 := nesting_array fun c hc => by
      have ht := Tagged.nesting_toJson (h c.2 (List.mem_map_of_mem hc))
      simpa [Json.nesting, nestingOfFields] using ht
    rw [toJson, Json.nesting]
    refine Nat.succ_le_succ (nestingOfFields_le.mpr ?_)
    simpa [Json.nesting] using hcaptures
  | map entries =>
    have hentries : (Json.array (entries.map fun q => Json.array [q.1.toJson, q.2.toJson])).nesting ≤ 3 :=
      nesting_array fun q hq =>
        nesting_pair (Tagged.nesting_toJson (h q.1 (List.mem_flatMap.mpr ⟨q, hq, by simp⟩)))
          (Tagged.nesting_toJson (h q.2 (List.mem_flatMap.mpr ⟨q, hq, by simp⟩)))
    rw [toJson, Json.nesting]
    refine Nat.succ_le_succ (nestingOfFields_le.mpr ?_)
    simpa using hentries
  | set elements =>
    have helements : (Json.array (elements.map Tagged.toJson)).nesting ≤ 2 :=
      nesting_array fun t ht => Tagged.nesting_toJson (h t ht)
    rw [toJson, Json.nesting]
    refine Nat.succ_le_succ (nestingOfFields_le.mpr ?_)
    simpa using helements.trans (by decide)

theorem Entry.nesting_toJson {e : Entry} (h : e.IsFormed) : e.toJson.nesting ≤ 5 := by
  have hprototype := Tagged.nesting_toJson (h.values _ List.mem_cons_self)
  have hproperties : (Json.array (e.properties.map fun q => Json.array [q.1.toJson, q.2.toJson])).nesting
      ≤ 4 := nesting_array fun q hq => by
    obtain ⟨hkey, hslot⟩ := h.property hq
    exact nesting_pair ((Tagged.nesting_toJson hkey).trans (by decide)) (Slot.nesting_toJson hslot)
  have hpayload : e.payload.nesting ≤ 4 := by
    obtain hnull | ⟨p, hp, hflat⟩ := h.payload
    · rw [hnull]
      exact Nat.zero_le _
    · rw [hp]
      exact Payload.nesting_toJson hflat
  rw [toJson, Json.nesting]
  refine Nat.succ_le_succ (nestingOfFields_le.mpr ?_)
  simp only [List.forall_mem_cons]
  have hrest : ∀ f ∈ ([] : List (String × Json)), f.2.nesting ≤ 4 :=
    fun _ hf => absurd hf List.not_mem_nil
  exact ⟨Nat.zero_le _, hprototype.trans (by decide), Nat.zero_le _, hproperties, hpayload, hrest⟩

/-- **The text of an envelope is flat**: seven containers stand inside one another, at most. -/
theorem Envelope.nesting_toJson {e : Envelope} (h : e.IsFormed) : e.toJson.nesting ≤ 7 := by
  have hentries : (Json.object (e.entries.entries.map fun q => (q.1, q.2.toJson))).nesting ≤ 6 :=
    Nat.succ_le_succ (nestingOfFields_le.mpr (List.forall_mem_map.mpr fun q hq =>
      Entry.nesting_toJson (h.entry q hq)))
  have hroot := Tagged.nesting_toJson h.root
  rw [toJson, Json.nesting]
  refine Nat.succ_le_succ (nestingOfFields_le.mpr ?_)
  simp only [List.forall_mem_cons]
  exact ⟨hentries, hroot.trans (by decide), fun _ hf => absurd hf List.not_mem_nil⟩

/-! ## Known fields -/

/-- The name of a field, as it stands in the text. -/
theorem decodeText_name (k : String) : decodeText [] (k.toList.flatMap Text.quotedChar) = some k := by
  rw [decodeText_quoted, List.reverse_nil, List.nil_append, String.ofList_toList]

/-- A record whose fields all are known keeps them. -/
theorem restrict_record {shapes : List (String × Shape)} {fields : List (String × Json)}
    (h : ∀ f ∈ fields, ∃ s, shapes.lookup f.1 = some s ∧ f.2.raw.restrict s = f.2.raw) :
    (Json.object fields).raw.restrict (.record shapes) = (Json.object fields).raw := by
  rw [Json.raw, Raw.restrict, restrictFields_eq fun f hf => ?_]
  obtain ⟨s, hs, hraw⟩ := h f hf
  refine ⟨s, ?_, hraw⟩
  rw [Shape.field?, decodeText_name]
  exact hs

theorem restrict_pair {a b : Json} {first second : Shape} (ha : a.raw.restrict first = a.raw)
    (hb : b.raw.restrict second = b.raw) :
    (Json.array [a, b]).raw.restrict (.pair first second) = (Json.array [a, b]).raw := by
  show Raw.array [a.raw.restrict first, b.raw.restrict second] = .array [a.raw, b.raw]
  rw [ha, hb]

theorem Slot.restrict_toJson (s : Slot) :
    s.toJson.raw.restrict (.record (fieldNames.map fun name => (name, .any))) = s.toJson.raw := by
  rw [toJson_eq]
  refine restrict_record fun f hf => ⟨.any, ?_, f.2.restrict_any⟩
  have hname : f.1 ∈ fieldNames := s.fields_sublist.subset (List.mem_map_of_mem hf)
  generalize f.1 = name at hname
  simp only [fieldNames, List.mem_cons, List.not_mem_nil, or_false] at hname
  obtain rfl | rfl | rfl | rfl | rfl | rfl := hname <;> rfl

theorem Entry.restrict_toJson (e : Entry) : e.toJson.raw.restrict shape = e.toJson.raw := by
  rw [toJson, shape]
  refine restrict_record ?_
  simp only [List.forall_mem_cons, List.not_mem_nil, false_implies, implies_true, and_true]
  refine ⟨⟨.any, rfl, Json.restrict_any _⟩, ⟨.any, rfl, Json.restrict_any _⟩,
    ⟨.any, rfl, Json.restrict_any _⟩, ⟨_, rfl, ?_⟩, ⟨.any, rfl, Json.restrict_any _⟩⟩
  rw [Json.raw, Raw.restrict, restrictItems_eq fun _ => List.forall_mem_map.mpr fun q _ => ?_]
  exact restrict_pair (Json.restrict_any _) q.2.restrict_toJson

/-- **Every field of an envelope is a known one.** -/
theorem Envelope.restrict_toJson (e : Envelope) : e.toJson.raw.restrict shape = e.toJson.raw := by
  rw [toJson, shape]
  refine restrict_record ?_
  simp only [List.forall_mem_cons, List.not_mem_nil, false_implies, implies_true, and_true]
  refine ⟨⟨_, rfl, ?_⟩, ⟨.any, rfl, Json.restrict_any _⟩⟩
  rw [Json.raw, Raw.restrict, restrictFields_eq (List.forall_mem_map.mpr fun q _ => ?_)]
  exact ⟨Entry.shape, rfl, q.2.restrict_toJson⟩

/-! ## Reading a text -/

/-- A formed envelope whose numbers are integers is read from its text. -/
theorem Envelope.parse_compact_of_isFormed {e : Envelope} (h : e.IsFormed)
    (hnumbers : e.toJson.HasIntegers) : parse e.compact = .ok e := by
  have hdepth : 0 + e.toJson.nesting ≤ nestingLimit := by
    have hflat := nesting_toJson h
    unfold nestingLimit
    omega
  unfold parse Json.parseShaped? compact
  rw [scan?_compact hnumbers, Option.bind_eq_bind, Option.bind_some, e.restrict_toJson,
    Json.decode_raw hnumbers 0 hdepth, Option.bind_some, ofJson?_toJson h]

section Serialize

variable {depth : ℕ} {v : Value} {options : SuspendOptions} {e : Envelope} {r r' : Realm}

/-- **The text of an envelope is read as the envelope.** Whatever graph of objects is suspended, with no
entries to go on with: its envelope is nested in seven containers at most, and if its numbers are
integers, its text is read as the same envelope, with entries, properties and fields of payloads in
their order, so that it has the same digest. -/
theorem parse_compact (hsound : r.references.Sound) (hknown : options.known = {})
    (h : Yields (@serialize (engine depth) v options) r e r') (hnumbers : e.toJson.HasIntegers) :
    e.toJson.nesting ≤ 7 ∧ Envelope.parse e.compact = .ok e ∧
      (Envelope.parse e.compact).map Envelope.digest = .ok e.digest := by
  have hformed : e.IsFormed := (h.isFormed hsound hknown).1
  have hparse := Envelope.parse_compact_of_isFormed hformed hnumbers
  refine ⟨Envelope.nesting_toJson hformed, hparse, ?_⟩
  rw [hparse]
  rfl

/-- The text of the envelope of one object of each kind is read as the envelope. -/
theorem parse_compact_chest : ∃ e r', Yields (@serialize (engine 12) (.object 0) {}) chestRealm e r' ∧
    e.toJson.HasIntegers ∧ Envelope.parse e.compact = .ok e := by
  have hrun : ((chestRealm.run (@serialize (engine 12) (.object 0) {})).1.toOption.any
      fun e => e.toJson.HasIntegers) = true := by decide +kernel
  obtain ⟨e, r', hy, hnumbers⟩ := exists_yields_of_any hrun
  have hintegers : e.toJson.HasIntegers := of_decide_eq_true hnumbers
  exact ⟨e, r', hy, hintegers, (parse_compact References.sound_empty rfl hy hintegers).2.1⟩

end Serialize

end Stasis
