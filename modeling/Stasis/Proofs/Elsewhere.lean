import Mathlib
import Stasis.Proofs.Given
import Stasis.Proofs.Growth
import Stasis.Proofs.OpenSessions

/-!
# Symbols from elsewhere

A symbol that is not shared goes by its reference. Where the reference is read, it stands for a new
symbol, unless the realm has a symbol for it already.

* `Yields.of_taggedSymbol`, `Yields.of_resumedSymbol`: a symbol is written, and a reference is read.
* `Realm.Names`: a reference stands for one symbol, and no two references for the same one.
* `Passes.names`: that is so throughout a history.
* `symbols_apart`: two symbols of one realm, read in another one.
* `deserialize_ownSymbol`: which symbol a realm reads, and when it is one that the realm had before.
-/

namespace Stasis

variable {α β : Type} {r r' : Realm}

/-! ## Descriptions -/

/-- A symbol keeps its description. -/
theorem Realm.Step.descriptions (h : r.Step r') :
    r.symbols.descriptions.toList <+: r'.symbols.descriptions.toList := by
  cases h with
  | change hchange =>
    cases hchange with
    | symbol description => exact r.symbols.descriptions_create description
    | sharedSymbol key => exact r.symbols.descriptions_shared key
    | resumedSymbol description _ => exact r.symbols.descriptions_create description
    | _ => exact List.prefix_rfl
  | _ => exact List.prefix_rfl

theorem Steady.descriptions {x : Run α} {out : Except Fault α} (hx : Steady [] x)
    (hrun : r.run x = (out, r')) :
    r.symbols.descriptions.toList <+: r'.symbols.descriptions.toList :=
  hx.last (P := fun now => r.symbols.descriptions.toList <+: now.symbols.descriptions.toList)
    (fun hnow hstep => hnow.trans hstep.descriptions) hrun List.prefix_rfl

/-! ## Writing a symbol, and reading a reference -/

/-- A symbol that is written by its reference is not shared, and the reference stands for it. -/
theorem Yields.of_taggedSymbol {id : SymbolId} {reference : String} {description : Option String}
    (hsound : r.references.Sound)
    (h : Yields (taggedSymbol id) r (.ownSymbol reference description) r') :
    r.symbols.keyFor? id = none ∧ description = r.symbols.description? id ∧
      r'.references.symbols.find? id = some reference ∧
      r.references.GoesOn r'.references := by
  unfold taggedSymbol at h
  obtain ⟨r₁, r₂, hget, h⟩ := yields_bind_iff.mp h
  cases hget
  cases hkey : r.symbols.keyFor? id with
  | some key =>
    rw [hkey] at h
    cases h
  | none =>
    rw [hkey] at h
    obtain ⟨_, r₃, hset, h⟩ := yields_bind_iff.mp h
    cases hset
    cases h
    exact ⟨rfl, rfl, (hsound.ofSymbol id).2.2, .ofSymbol hsound id⟩

/-- A reference that stands for no symbol is read as a new one. -/
theorem yields_resumedSymbol_new {reference : String} {description : Option String}
    (h : r.references.symbol? reference = none) :
    Yields (resumedSymbol reference description) r (.symbol r.symbols.descriptions.size)
      { r with
        symbols := (r.symbols.create description).2
        references := r.references.bindSymbol reference r.symbols.descriptions.size } := by
  unfold resumedSymbol
  refine (yields_modifyGet _ r).trans ?_
  simp only [h]
  rfl

/-- What is read is the symbol that the reference stands for, or else a new one, with the description
that is read. -/
theorem Yields.of_resumedSymbol {reference : String} {description : Option String} {v : Value}
    (h : Yields (resumedSymbol reference description) r v r') :
    ∃ id, v = .symbol id ∧ r'.references.symbol? reference = some id ∧
      (r.references.symbol? reference = some id ∧ r' = r ∨
        r.references.symbol? reference = none ∧ id = r.symbols.descriptions.size ∧
          r'.symbols.descriptions.toList[id]? = some description ∧ r.Step r') := by
  cases hf : r.references.symbol? reference with
  | some id =>
    cases (yields_resumedSymbol hf).symm.trans h
    exact ⟨id, rfl, hf, .inl ⟨rfl, rfl⟩⟩
  | none =>
    cases (yields_resumedSymbol_new hf).symm.trans h
    refine ⟨_, rfl, References.symbol?_bindSymbol_self hf,
      .inr ⟨rfl, rfl, ?_, .change (.resumedSymbol description hf)⟩⟩
    simp [Symbols.create]

/-! ## Symbols and their references -/

namespace References

/-- A reference stands for the symbol whose reference it is. -/
def LeadBack (ρ : References) : Prop :=
  ∀ reference id, ρ.symbol? reference = some id → ρ.symbols.find? id = some reference

variable {ρ : References} {reference : String} {id : SymbolId}

theorem LeadBack.bindSymbol (h : ρ.LeadBack) (hfree : ρ.symbol? reference = none)
    (hnone : ρ.symbols.find? id = none) : (ρ.bindSymbol reference id).LeadBack := by
  intro reference' id' hid
  by_cases he : reference = reference'
  · subst he
    rw [symbol?_bindSymbol_self hfree] at hid
    cases hid
    unfold References.bindSymbol
    rw [Table.find?_insertNew, if_pos rfl, hnone, Option.getD_none]
  · rw [symbol?_bindSymbol_of_ne he] at hid
    have hold : ρ.symbols.find? id' = some reference' := h reference' id' hid
    have hne : id ≠ id' := by
      rintro rfl
      cases hnone.symm.trans hold
    unfold References.bindSymbol
    rw [Table.find?_insertNew, if_neg hne]
    exact hold

theorem LeadBack.ofSymbol (h : ρ.LeadBack) (id : SymbolId) : (ρ.ofSymbol id).2.LeadBack := by
  unfold References.ofSymbol
  cases hf : ρ.symbols.find? id with
  | some known => exact h
  | none =>
    obtain ⟨n, -, -, hnext⟩ := allocate_next ρ
    simp only [hnext]
    have hcounted : ({ ρ with next := n + 1 } : References).LeadBack := h
    exact hcounted.bindSymbol (allocate_free ρ) hf

theorem LeadBack.ofObject (h : ρ.LeadBack) (id : ObjectId) : (ρ.ofObject id).2.LeadBack := by
  unfold References.ofObject
  cases ρ.objects.find? id with
  | some known => exact h
  | none => exact h

end References

namespace Realm

/-- Symbols that have a reference exist. -/
def BindsOwn (r : Realm) : Prop :=
  ∀ id reference, r.references.symbols.find? id = some reference → id < r.symbols.descriptions.size

/-- Symbols and their references are one to one. -/
structure Names (r : Realm) : Prop where
  sound : r.references.Sound
  back : r.references.LeadBack

/-- No two references stand for one symbol. -/
theorem Names.symbol?_injective (h : r.Names) {x y : String} {id : SymbolId}
    (hx : r.references.symbol? x = some id) (hy : r.references.symbol? y = some id) : x = y :=
  Option.some.inj ((h.back x id hx).symm.trans (h.back y id hy))

/-- **Every step keeps symbols and their references one to one**, as long as a new symbol has no
reference from before. -/
theorem Step.names (h : r.Names) (hown : r.BindsOwn) (hstep : r.Step r') : r'.Names := by
  refine ⟨(hstep.goesOn h.sound).sound, ?_⟩
  cases hstep with
  | change hchange =>
    cases hchange with
    | objectReference id => exact h.back.ofObject id
    | symbolReference id => exact h.back.ofSymbol id
    | resumedSymbol description hfree =>
      refine h.back.bindSymbol hfree ?_
      cases hid : r.references.symbols.find? (r.symbols.create description).1 with
      | none => rfl
      | some reference => exact absurd (hown _ _ hid) (lt_irrefl _)
    | _ => exact h.back
  | _ => exact h.back

end Realm

/-- **Throughout a history** in which symbols that have a reference exist, symbols and their references
are one to one. -/
theorem Passes.names {heaps : List (Table String Entry)} {x : Run α} {past later : List Realm}
    {out : Except Fault α} (hx : Passes heaps x (r :: past) out (r' :: later)) (h : r.Names)
    (hown : ∀ now ∈ r' :: later, now.BindsOwn) : r'.Names := by
  let P (h : List Realm) : Prop := ∀ now before, h = now :: before →
    (∀ moment ∈ h, moment.BindsOwn) → now.Names
  have hfirst : P (r :: past) := by
    rintro _ _ ⟨⟩ -
    exact h
  have hstep : ∀ {r₁ r₂ : Realm} {before : List Realm}, P (r₁ :: before) → r₁.Step r₂ →
      P (r₂ :: r₁ :: before) := by
    rintro r₁ r₂ before hp hs _ _ ⟨⟩ hall
    have hbefore : ∀ moment ∈ r₁ :: before, moment.BindsOwn :=
      fun moment hm => hall moment (List.mem_cons_of_mem _ hm)
    exact hs.names (hp r₁ before rfl hbefore) (hbefore r₁ List.mem_cons_self)
  exact hx.keeps hstep hfirst r' later rfl hown

/-- A reference is read in a realm whose symbols and references are one to one. -/
theorem Yields.names_of_resumedSymbol {reference : String} {description : Option String} {v : Value}
    (h : Yields (resumedSymbol reference description) r v r') (hnames : r.Names) (hown : r.BindsOwn) :
    r'.Names ∧ ∃ id, v = .symbol id ∧ r'.references.symbol? reference = some id := by
  obtain ⟨id, hv, hid, ⟨-, rfl⟩ | ⟨-, -, -, hstep⟩⟩ := h.of_resumedSymbol
  · exact ⟨hnames, id, hv, hid⟩
  · exact ⟨hstep.names hnames hown, id, hv, hid⟩

/-! ## Two realms -/

section TwoRealms

variable {a₀ a₁ a₂ a₃ b₀ b₁ b₂ b₃ : Realm} {past later : List Realm} {x y : String}
  {d d' : Option String}

/-- Two symbols are written at two points of a history. -/
theorem written_eq_iff {act : Run α} {out : Except Fault α} {s t : SymbolId}
    (hsound : a₀.references.Sound) (hs : Yields (taggedSymbol s) a₀ (.ownSymbol x d) a₁)
    (hact : Passes [] act (a₁ :: past) out (a₂ :: later))
    (ht : Yields (taggedSymbol t) a₂ (.ownSymbol y d') a₃) : x = y ↔ s = t := by
  obtain ⟨-, -, hx, hgoes⟩ := hs.of_taggedSymbol hsound
  have hgoes' : a₁.references.GoesOn a₂.references := hact.goesOn hgoes.sound
  obtain ⟨-, -, hy, hgoes''⟩ := ht.of_taggedSymbol hgoes'.sound
  have hx' : a₃.references.symbols.find? s = some x :=
    (hgoes'.trans hgoes'').le.symbols s x hx
  constructor
  · rintro rfl
    have hsx := hgoes''.sound.symbols s x hx'
    have htx := hgoes''.sound.symbols t x hy
    exact Option.some.inj (hsx.symm.trans htx)
  · rintro rfl
    exact Option.some.inj (hx'.symm.trans hy)

/-- Two references are read at two points of a history. -/
theorem read_eq_iff {act : Run α} {out : Except Fault α} {v w : Value} (hnames : b₀.Names)
    (hown : b₀.BindsOwn) (hv : Yields (resumedSymbol x d) b₀ v b₁)
    (hact : Passes [] act (b₁ :: past) out (b₂ :: later)) (hall : ∀ now ∈ b₂ :: later, now.BindsOwn)
    (hw : Yields (resumedSymbol y d') b₂ w b₃) : v = w ↔ x = y := by
  obtain ⟨hnames₁, i, rfl, hi⟩ := hv.names_of_resumedSymbol hnames hown
  have hnames₂ : b₂.Names := hact.names hnames₁ hall
  obtain ⟨hnames₃, j, rfl, hj⟩ := hw.names_of_resumedSymbol hnames₂ (hall b₂ List.mem_cons_self)
  have hi₂ : b₂.references.symbol? x = some i :=
    (hact.goesOn hnames₁.sound).le.byReference x i hi
  have hi₃ : b₃.references.symbol? x = some i := by
    obtain ⟨-, -, -, ⟨-, rfl⟩ | ⟨-, -, -, hstep⟩⟩ := hw.of_resumedSymbol
    · exact hi₂
    · exact (hstep.goesOn hnames₂.sound).le.byReference x i hi₂
  constructor
  · rintro ⟨⟩
    exact hnames₃.symbol?_injective hi₃ hj
  · rintro rfl
    exact congrArg Value.symbol (Option.some.inj (hi₃.symm.trans hj))

/-- **Symbols from elsewhere stay distinct.** In one realm, two symbols are written at two points of a
history; in another realm, what was written is read at two points of a history, whatever happens in
between. The values that are read are the same if and only if the symbols are. -/
theorem symbols_apart {α β : Type} {actA : Run α} {actB : Run β} {outA : Except Fault α}
    {outB : Except Fault β} {pastB laterB : List Realm} {s t : SymbolId} {v w : Value}
    (hsound : a₀.references.Sound) (hs : Yields (taggedSymbol s) a₀ (.ownSymbol x d) a₁)
    (hactA : Passes [] actA (a₁ :: past) outA (a₂ :: later))
    (ht : Yields (taggedSymbol t) a₂ (.ownSymbol y d') a₃) (hnames : b₀.Names) (hown : b₀.BindsOwn)
    (hv : Yields (resumedSymbol x d) b₀ v b₁)
    (hactB : Passes [] actB (b₁ :: pastB) outB (b₂ :: laterB))
    (hall : ∀ now ∈ b₂ :: laterB, now.BindsOwn)
    (hw : Yields (resumedSymbol y d') b₂ w b₃) : v = w ↔ s = t :=
  (read_eq_iff hnames hown hv hactB hall hw).trans (written_eq_iff hsound hs hactA ht)

/-- A realm with two symbols. -/
def pairRealm : Realm :=
  { Realm.small #[] 0 with symbols := ⟨#[some "first", some "second"], {}⟩ }

/-- Two symbols are written, and read one after the other in a realm without any. -/
theorem symbols_apart_pair : ∃ x y v w a₁ a₂ b₁ b₂,
    Yields (taggedSymbol 0) pairRealm (.ownSymbol x (some "first")) a₁ ∧
      Yields (taggedSymbol 1) a₁ (.ownSymbol y (some "second")) a₂ ∧
      Yields (resumedSymbol x (some "first")) (.small #[] 0) v b₁ ∧
      Yields (resumedSymbol y (some "second")) b₁ w b₂ ∧ (v = w ↔ (0 : SymbolId) = 1) := by
  let a₁ : Realm := (pairRealm.run (taggedSymbol 0)).2
  let b₁ : Realm := ((Realm.small #[] 0).run (resumedSymbol (referenceOf 0) (some "first"))).2
  let y : String := (a₁.references.ofSymbol 1).1
  have hs : Yields (taggedSymbol 0) pairRealm (.ownSymbol (referenceOf 0) (some "first")) a₁ := rfl
  have ht : Yields (taggedSymbol 1) a₁ (.ownSymbol y (some "second")) (a₁.run (taggedSymbol 1)).2 := rfl
  have hv : Yields (resumedSymbol (referenceOf 0) (some "first")) (.small #[] 0) (.symbol 0) b₁ := rfl
  obtain ⟨w, b₂, hw⟩ : ∃ w b₂, Yields (resumedSymbol y (some "second")) b₁ w b₂ := ⟨_, _, rfl⟩
  have hnames : (Realm.small #[] 0).Names := ⟨References.sound_empty, fun _ _ hid => by cases hid⟩
  have hnone : (Realm.small #[] 0).BindsOwn := fun _ _ hid => by cases hid
  have hone : b₁.BindsOwn := by
    intro id reference hid
    have hmem : (id, reference) ∈ [(0, referenceOf 0)] := Table.find?_eq_some_iff.mp hid
    obtain ⟨rfl, -⟩ := Prod.mk.inj (List.mem_singleton.mp hmem)
    exact Nat.one_pos
  exact ⟨_, y, _, w, a₁, _, b₁, b₂, hs, ht, hv, hw, symbols_apart References.sound_empty hs
    (.pure () [a₁]) ht hnames hnone hv (.pure () [b₁]) (List.forall_mem_singleton.mpr hone) hw⟩

end TwoRealms

/-! ## Reading an envelope -/

section Machine

variable [Machine] {v : Value} {e : Envelope}

/-- An envelope is read in a session of its own. What comes after that changes neither symbols nor
references. -/
theorem Yields.of_deserialize (h : Yields (deserialize e) r v r') : ∃ r₁,
    Yields (runSession r.sessions.size e)
      { r with sessions := r.sessions.push { entries := e.entries } } v r₁ ∧
        r'.references = r₁.references ∧ r'.symbols = r₁.symbols := by
  unfold deserialize at h
  obtain ⟨⟨outcome, created⟩, r₃, hsession, hnoted⟩ := yields_bind_iff.mp h
  obtain ⟨r₄, text, houtcome, hnote⟩ := hnoted.of_noted
  obtain ⟨rfl, rfl⟩ := houtcome.of_ofExcept
  cases hnote
  unfold withSession at hsession
  obtain ⟨_, _, hget, hsession⟩ := yields_bind_iff.mp hsession
  cases hget
  obtain ⟨_, _, hopened, hsession⟩ := yields_bind_iff.mp hsession
  cases hopened
  obtain ⟨outcome, r₂, hrun, hsession⟩ := yields_bind_iff.mp hsession
  obtain ⟨_, _, hget, hsession⟩ := yields_bind_iff.mp hsession
  cases hget
  obtain ⟨_, _, hclosed, hsession⟩ := yields_bind_iff.mp hsession
  cases hclosed
  cases hsession
  exact ⟨r₂, hrun.of_attempt, rfl, rfl⟩

/-- The root is read first, and everything behind it afterwards. -/
theorem Yields.of_runSession [SafeMachine] {session : SessionId}
    (h : Yields (runSession session e) r v r') :
    ∃ (r₁ : Realm) (rest : Run Unit), Yields (resolve session e.root) r v r₁ ∧ Steady [] rest ∧
      Yields rest r₁ () r' := by
  unfold runSession at h
  obtain ⟨root, r₁, hroot, h⟩ := yields_bind_iff.mp h
  obtain ⟨⟨⟩, r₂, hdiscover, h⟩ := yields_bind_iff.mp h
  obtain ⟨s, r₃, hs, h⟩ := yields_bind_iff.mp h
  obtain ⟨⟨⟩, r₄, hlinks, h⟩ := yields_bind_iff.mp h
  cases h
  refine ⟨r₁, _, hroot, Behaves.steady ?_ [],
    hdiscover.bind (f := fun _ => _) (hs.bind (f := fun s => _) hlinks)⟩
  refine (behaves_discover session e.entries).bind fun _ => ?_
  refine (behaves_sessionAt session).bind fun s => ?_
  refine behaves_forIn (fun reference _ => ?_) _ _
  split
  · exact (behaves_linkEntry session reference _).bind fun _ => Behaves.pure _
  · exact Behaves.pure _

end Machine

/-- **The symbol that a realm reads** for a reference at the root of an envelope is the one that the
reference stands for already, whatever the envelope says of its description; that is a symbol which the
realm had before. If the reference stands for none, it is a new symbol with the description of the
envelope. -/
theorem deserialize_ownSymbol {depth : ℕ} {entries : Table String Entry} {reference : String}
    {description : Option String} {v : Value} (hnames : r.Names) (hown : r.BindsOwn)
    (h : Yields (@deserialize (engine (depth + 1)) ⟨entries, .ownSymbol reference description⟩) r v r') :
    ∃ id, v = .symbol id ∧ r'.references.symbol? reference = some id ∧
      (r.references.symbol? reference = some id ∧ id < r.symbols.descriptions.size ∨
        r.references.symbol? reference = none ∧ r.symbols.descriptions.size ≤ id ∧
          r'.symbols.description? id = description) := by
  let _ : Machine := engine (depth + 1)
  obtain ⟨r₂, hsession, hreferences, hsymbols⟩ := h.of_deserialize
  obtain ⟨r₁, rest, hroot, hsteady, hrest⟩ := hsession.of_runSession
  have hread : Yields (resumedSymbol reference description)
      { r with sessions := r.sessions.push { entries } } v r₁ := hroot
  have hsound : r₁.references.Sound :=
    (hread.names_of_resumedSymbol ⟨hnames.sound, hnames.back⟩ hown).1.sound
  obtain ⟨id, rfl, hid, hcase⟩ := hread.of_resumedSymbol
  refine ⟨id, rfl, ?_, ?_⟩
  · rw [hreferences]
    exact (hsteady.goesOn hsound hrest).le.byReference reference id hid
  · rcases hcase with ⟨hbound, -⟩ | ⟨hfree, hnew, hdescription, -⟩
    · exact .inl ⟨hbound, hown id reference (hnames.back reference id hbound)⟩
    · have hkept : r₁.symbols.descriptions.toList <+: r'.symbols.descriptions.toList := by
        rw [hsymbols]
        exact hsteady.descriptions hrest
      have hlast := getElem?_of_prefix hkept hdescription
      rw [Array.getElem?_toList] at hlast
      exact .inr ⟨hfree, hnew.ge, by rw [Symbols.description?, hlast, Option.join_some]⟩

/-- A realm that has one symbol, and has given it a reference. -/
def ownRealm : Realm :=
  { Realm.small #[] 0 with
    symbols := ⟨#[some "ours"], {}⟩
    references := {
      next := 1
      symbols := Table.ofList [(0, referenceOf 0)]
      byReference := Table.ofList [(referenceOf 0, 0)] } }

/-- A symbol of another realm with the same reference is read as the one that this realm had. -/
theorem deserialize_ownSymbol_taken : ∃ r',
    Yields (@deserialize (engine 2) ⟨{}, .ownSymbol (referenceOf 0) (some "theirs")⟩) ownRealm
      (.symbol 0) r' := by
  let deserialized := ownRealm.run
    (@deserialize (engine 2) ⟨{}, .ownSymbol (referenceOf 0) (some "theirs")⟩)
  have hok : deserialized.1.isOk = true := by decide +kernel
  obtain ⟨v, r', hy⟩ := exists_yields_of_isOk hok
  have hnames : ownRealm.Names := by
    refine ⟨⟨?_, ?_, ?_⟩, ?_⟩
    · rintro _ _ ⟨⟩
    · rintro _ _ _ ⟨⟩
    · intro id reference hid
      obtain ⟨rfl, rfl⟩ := Table.eq_of_find?_single hid
      rfl
    · intro reference id hid
      obtain ⟨rfl, rfl⟩ := Table.eq_of_find?_single hid
      rfl
  have hown : ownRealm.BindsOwn := by
    intro id reference hid
    obtain ⟨rfl, -⟩ := Table.eq_of_find?_single hid
    exact Nat.one_pos
  have hknown : ownRealm.references.symbol? (referenceOf 0) = some 0 := rfl
  obtain ⟨id, rfl, -, ⟨hbound, -⟩ | ⟨hfree, -⟩⟩ := deserialize_ownSymbol hnames hown hy
  · cases hknown.symm.trans hbound
    exact ⟨r', hy⟩
  · cases hknown.symm.trans hfree

end Stasis
