import Mathlib
import Stasis.Proofs.Elsewhere
import Stasis.Proofs.Supplied

/-!
# References that mean one thing

A realm never gives out a reference that is in use. But the reference of an object may be read as that
of a symbol, and then it is the reference of both.

* `References.Unambiguous`: no reference is that of an object and of a symbol.
* `Unambiguous.ofObject`, `Unambiguous.ofSymbol`: a reference that a realm gives out is not in use.
* `Realm.Rebinds`: a symbol is read by the reference of an object.
* `Passes.unambiguous_iff`: a history keeps references apart if and only if it never does that.
* `unambiguous_of_drive`: whatever is asked of a new realm.
* `deserialize_ownSymbol_object`: an envelope that does it.
-/

namespace Stasis

variable {α : Type} {r r' : Realm}

/-! ## Giving a reference -/

namespace References

variable {ρ ρ' : References} {reference : String}

/-- No reference is that of an object and of a symbol. -/
def Unambiguous (ρ : References) : Prop :=
  ∀ id reference, ρ.objects.find? id = some reference → ρ.symbol? reference = none

/-- What was given stays given, so references never get to mean one thing again. -/
theorem Unambiguous.of_le (hle : ρ.Le ρ') (h : ρ'.Unambiguous) : ρ.Unambiguous := by
  intro id reference hid
  have hnone : ρ'.symbol? reference = none := h id reference (hle.objects id reference hid)
  cases hs : ρ.symbol? reference with
  | none => rfl
  | some s => cases hnone.symm.trans (hle.byReference reference s hs)

theorem Unambiguous.bindSymbol (h : ρ.Unambiguous)
    (hnew : ∀ object, ρ.objects.find? object ≠ some reference) (id : SymbolId) :
    (ρ.bindSymbol reference id).Unambiguous := by
  intro object other hobject
  have hne : reference ≠ other := by
    rintro rfl
    exact hnew object hobject
  rw [symbol?_bindSymbol_of_ne hne]
  exact h object other hobject

/-- **An object gets a reference** that stands for no symbol. -/
theorem Unambiguous.ofObject (h : ρ.Unambiguous) (object : ObjectId) :
    (ρ.ofObject object).2.Unambiguous := by
  unfold References.ofObject
  cases ρ.objects.find? object with
  | some known => exact h
  | none =>
    have hfree : ρ.symbol? ρ.allocate.1 = none := allocate_free ρ
    intro object' reference hobject
    rw [Table.find?_insert] at hobject
    by_cases he : object = object'
    · rw [if_pos he] at hobject
      cases hobject
      exact hfree
    · rw [if_neg he] at hobject
      exact h object' reference hobject

/-- **A symbol gets a reference** that no object has. -/
theorem Unambiguous.ofSymbol (h : ρ.Unambiguous) (hsound : ρ.Sound) (id : SymbolId) :
    (ρ.ofSymbol id).2.Unambiguous := by
  unfold References.ofSymbol
  cases ρ.symbols.find? id with
  | some known => exact h
  | none =>
    obtain ⟨n, hn, href, hnext⟩ := allocate_next ρ
    simp only [href, hnext]
    have hcounted : ({ ρ with next := n + 1 } : References).Unambiguous := h
    refine hcounted.bindSymbol (fun object hobject => ?_) id
    -- the references of objects have numbers below the next one
    obtain ⟨m, hm, he⟩ := hsound.given object _ hobject
    have hmn : n = m := referenceOf_injective he
    omega

end References

/-! ## Reading a reference -/

namespace Realm

/-- A symbol is read by the reference of an object, which stands for no symbol so far. -/
def Rebinds (r r' : Realm) : Prop :=
  ∃ object reference description, r.references.objects.find? object = some reference ∧
    r.references.symbol? reference = none ∧
    r' = { r with
      symbols := (r.symbols.create description).2
      references := r.references.bindSymbol reference (r.symbols.create description).1 }

/-- A reference means two things then. -/
theorem Rebinds.not_unambiguous (h : r.Rebinds r') : ¬ r'.references.Unambiguous := by
  obtain ⟨object, reference, description, hobject, hfree, rfl⟩ := h
  intro hone
  have hnone := hone object reference hobject
  rw [References.symbol?_bindSymbol_self hfree] at hnone
  cases hnone

/-- **One step.** References mean one thing after it if they did so before, and the step does not read
a symbol by the reference of an object. -/
theorem Step.unambiguous_iff (hsound : r.references.Sound) (hstep : r.Step r') :
    r'.references.Unambiguous ↔ ¬ r.Rebinds r' ∧ r.references.Unambiguous := by
  constructor
  · intro h
    exact ⟨fun hrebinds => hrebinds.not_unambiguous h, h.of_le (hstep.goesOn hsound).le⟩
  · rintro ⟨hnot, h⟩
    cases hstep with
    | change hchange =>
      cases hchange with
      | objectReference object => exact h.ofObject object
      | symbolReference id => exact h.ofSymbol hsound id
      | resumedSymbol description hfree =>
        refine h.bindSymbol (fun object hobject => ?_) _
        exact hnot ⟨object, _, description, hobject, hfree, rfl⟩
      | _ => exact h
    | _ => exact h

end Realm

/-! ## Histories -/

/-- At no moment of a history is a symbol read by the reference of an object. -/
def NeverRebinds (history : List Realm) : Prop :=
  history.IsChain fun now before => ¬ before.Rebinds now

/-- **References mean one thing at the end of a history** if and only if they did at its beginning,
and at no moment a symbol was read by the reference of an object. -/
theorem Passes.unambiguous_iff {heaps : List (Table String Entry)} {x : Run α} {later : List Realm}
    {out : Except Fault α} (hsound : r.references.Sound)
    (hx : Passes heaps x [r] out (r' :: later)) :
    r'.references.Unambiguous ↔ NeverRebinds (r' :: later) ∧ r.references.Unambiguous := by
  let P (h : List Realm) : Prop := ∀ now before, h = now :: before → now.references.Sound ∧
    (now.references.Unambiguous ↔ NeverRebinds (now :: before) ∧ r.references.Unambiguous)
  have hfirst : P [r] := by
    rintro _ _ ⟨⟩
    exact ⟨hsound, (and_iff_right (List.isChain_singleton r)).symm⟩
  have hstep : ∀ {r₁ r₂ : Realm} {before : List Realm}, P (r₁ :: before) → r₁.Step r₂ →
      P (r₂ :: r₁ :: before) := by
    rintro r₁ r₂ before hp hs _ _ ⟨⟩
    obtain ⟨hsound₁, hiff⟩ := hp r₁ before rfl
    refine ⟨(hs.goesOn hsound₁).sound, ?_⟩
    calc r₂.references.Unambiguous
        ↔ ¬ r₁.Rebinds r₂ ∧ r₁.references.Unambiguous := hs.unambiguous_iff hsound₁
      _ ↔ ¬ r₁.Rebinds r₂ ∧ NeverRebinds (r₁ :: before) ∧ r.references.Unambiguous :=
        and_congr_right fun _ => hiff
      _ ↔ NeverRebinds (r₂ :: r₁ :: before) ∧ r.references.Unambiguous := by
        unfold NeverRebinds
        rw [List.isChain_cons_cons, and_assoc]
  exact (hx.keeps hstep hfirst r' later rfl).2

/-- Every moment of a history has references that the last one goes on from. -/
theorem Passes.goesOn_of_mem {heaps : List (Table String Entry)} {x : Run α} {later : List Realm}
    {out : Except Fault α} (hsound : r.references.Sound)
    (hx : Passes heaps x [r] out (r' :: later)) :
    ∀ moment ∈ r' :: later, moment.references.GoesOn r'.references := by
  let P (h : List Realm) : Prop := ∀ now before, h = now :: before →
    ∀ moment ∈ now :: before, moment.references.GoesOn now.references
  have hfirst : P [r] := by
    rintro _ _ ⟨⟩ moment hm
    cases List.mem_singleton.mp hm
    exact .refl hsound
  have hstep : ∀ {r₁ r₂ : Realm} {before : List Realm}, P (r₁ :: before) → r₁.Step r₂ →
      P (r₂ :: r₁ :: before) := by
    rintro r₁ r₂ before hp hs _ _ ⟨⟩
    have hall := hp r₁ before rfl
    have hgoes : r₁.references.GoesOn r₂.references :=
      hs.goesOn (hall r₁ List.mem_cons_self).sound
    exact List.forall_mem_cons.mpr
      ⟨.refl hgoes.sound, fun moment hm => (hall moment hm).trans hgoes⟩
  exact hx.keeps hstep hfirst r' later rfl

/-- **Whatever is asked of a new realm**, with scripts and envelopes that are what they please: it
goes through moments from each of which its references go on, so that what was given stays given. They
mean one thing each if and only if at no moment a symbol was read by the reference of an object. -/
theorem unambiguous_of_drive {config : Config} {operations : List (ℕ × (α : Type) × Operation α)}
    {out : Except Fault Unit} (h : (Realm.fresh config).run (drive operations) = (out, r)) :
    ∃ later, Passes [] (drive operations) [Realm.fresh config] out (r :: later) ∧
      (∀ moment ∈ r :: later, moment.references.GoesOn r.references) ∧
      (r.references.Unambiguous ↔ NeverRebinds (r :: later)) := by
  have hnone : (Realm.fresh config).references.Sound ∧
      (Realm.fresh config).references.Unambiguous := by
    rw [references_fresh]
    exact ⟨References.sound_empty, nofun⟩
  obtain ⟨hsound, hfresh⟩ := hnone
  obtain ⟨out', r₁, later, hpass, -⟩ :=
    steady_drive operations [] (Realm.fresh config) [] List.nil_prefix
  obtain ⟨_, ⟨⟩, hrun⟩ := hpass.run_eq rfl
  obtain ⟨rfl, rfl⟩ := Prod.mk.inj (h.symm.trans hrun)
  refine ⟨later, hpass, hpass.goesOn_of_mem hsound, ?_⟩
  rw [hpass.unambiguous_iff hsound, and_iff_left hfresh]

/-! ## An envelope that reuses a reference -/

/-- **The reference of an object, read as that of a symbol**: the realm takes the envelope, the object
keeps its reference, and the symbol that is read has the same one. -/
theorem deserialize_ownSymbol_object {depth : ℕ} {entries : Table String Entry} {reference : String}
    {description : Option String} {object : ObjectId} {v : Value} (hnames : r.Names)
    (hown : r.BindsOwn) (hobject : r.references.objects.find? object = some reference)
    (h : Yields (@deserialize (engine (depth + 1)) ⟨entries, .ownSymbol reference description⟩) r v
      r') :
    ∃ id, v = .symbol id ∧ r'.references.objects.find? object = some reference ∧
      r'.references.symbol? reference = some id ∧ ¬ r'.references.Unambiguous := by
  obtain ⟨id, hv, hid, -⟩ := deserialize_ownSymbol hnames hown h
  have hgoes : r.references.GoesOn r'.references :=
    (steady_perform (depth + 1) (.deserialize ⟨entries, .ownSymbol reference description⟩) []).goesOn
      hnames.sound h
  have hobject' := hgoes.le.objects object reference hobject
  refine ⟨id, hv, hobject', hid, fun hone => ?_⟩
  cases hid.symm.trans (hone object reference hobject')

/-- A realm that has one object, and has given it a reference. -/
def givenRealm : Realm :=
  { Realm.small #[{ prototype := none, kind := .ordinary }] 0 with
    references := { next := 1, objects := Table.ofList [(0, referenceOf 0)] } }

/-- A symbol of another realm with the reference of this object. -/
theorem deserialize_ownSymbol_object_given : ∃ id r',
    Yields (@deserialize (engine 2) ⟨{}, .ownSymbol (referenceOf 0) (some "theirs")⟩) givenRealm
      (.symbol id) r' ∧ ¬ r'.references.Unambiguous := by
  let deserialized := givenRealm.run
    (@deserialize (engine 2) ⟨{}, .ownSymbol (referenceOf 0) (some "theirs")⟩)
  have hok : deserialized.1.isOk = true := by decide +kernel
  obtain ⟨v, r', hy⟩ := exists_yields_of_isOk hok
  have hnames : givenRealm.Names := by
    refine ⟨⟨?_, ?_, nofun⟩, nofun⟩
    · intro id reference hid
      obtain ⟨rfl, rfl⟩ := Table.eq_of_find?_single hid
      exact ⟨0, Nat.one_pos, rfl⟩
    · intro id id' reference hid hid'
      obtain ⟨rfl, -⟩ := Table.eq_of_find?_single hid
      obtain ⟨rfl, -⟩ := Table.eq_of_find?_single hid'
      rfl
  have hobject : givenRealm.references.objects.find? 0 = some (referenceOf 0) := rfl
  obtain ⟨id, rfl, -, -, htwo⟩ := deserialize_ownSymbol_object hnames nofun hobject hy
  exact ⟨id, r', hy, htwo⟩

end Stasis
