import Mathlib
import Stasis.Proofs.Sound

/-!
# Envelopes that go on with supplied entries

A value can be suspended into the entries of an earlier envelope. These come first in the new
envelope, as they were, and an object whose reference is among their keys is taken to be there.

* `Filled`, `Fills`: what a walk adds to its pass, one entry for each object that it writes.
* `fills_suspendObject`: the entry of an object around what it refers to.
* `serialize_extends`: what `serialize` adds to supplied entries, and when every new object is added.
* `serialize_extends_own`: entries of the realm itself are always safe to go on with.
* `yields_serialize_captured`: what happens to an object whose reference is among the supplied keys.
-/

namespace Stasis

variable {α β γ : Type}

/-! ## What a walk adds -/

/-- The entry is what a walk has written for the object, under its reference. -/
def Entry.IsFor (entry : Entry) (id : ObjectId) (reference : String) : Prop :=
  ∃ depth path r p r' p', r.references.objects.find? id = some reference ∧
    WalkYields (@entryOf (engine depth) id reference path) r p entry r' p'

/-- What has happened between two points of a walk: the entries that were there are where they were,
and each new one is written for an object, under its reference. -/
structure Filled (r : Realm) (p : Pass) (r' : Realm) (p' : Pass) : Prop where
  goesOn : r.references.GoesOn r'.references
  kept : p.entries.entries <+: p'.entries.entries
  filled : ∀ reference x, p'.entries.find? reference = some x → p.entries.find? reference = none →
    ∃ entry id, x = some entry ∧ r'.references.objects.find? id = some reference ∧
      entry.IsFor id reference

section Filled

variable {r r' r'' : Realm} {p p' p'' : Pass}

theorem Filled.of_realm (h : r.references.GoesOn r'.references) : Filled r p r' p :=
  ⟨h, List.prefix_rfl, fun _ _ hx hnone => absurd (hx.symm.trans hnone) (by simp)⟩

theorem Filled.trans (h : Filled r p r' p') (h' : Filled r' p' r'' p'') : Filled r p r'' p'' := by
  refine ⟨h.goesOn.trans h'.goesOn, h.kept.trans h'.kept, fun reference x hx hnone => ?_⟩
  cases hp : p'.entries.find? reference with
  | none => exact h'.filled reference x hx hp
  | some y =>
    have hy : p''.entries.find? reference = some y := Table.find?_of_prefix h'.kept hp
    obtain rfl : x = y := Option.some.inj (hx.symm.trans hy)
    obtain ⟨entry, id, hentry, hid, hfor⟩ := h.filled reference x hp hnone
    exact ⟨entry, id, hentry, h'.goesOn.le.objects id reference hid, hfor⟩

/-- **The place of an entry is taken before the walk and filled after it.** -/
theorem Filled.fill {reference : String} {entry : Entry} {id : ObjectId}
    (hnone : p.entries.find? reference = none) (hid : r.references.objects.find? id = some reference)
    (hfor : entry.IsFor id reference) (h : Filled r (p.put reference none) r' p') :
    Filled r p r' (p'.put reference (some entry)) := by
  have hnew : reference ∉ p.entries.keys := Table.find?_eq_none_iff.mp hnone
  have hput : (p.put reference none).entries.entries = p.entries.entries ++ [(reference, none)] :=
    Table.entries_insert_of_notMem hnew
  obtain ⟨rest, hrest⟩ : p.entries.entries ++ [(reference, none)] <+: p'.entries.entries :=
    hput ▸ h.kept
  have hfilled : (p'.put reference (some entry)).entries.entries
      = p.entries.entries ++ (reference, some entry) :: rest := by
    have hlist : p'.entries.entries = p.entries.entries ++ (reference, none) :: rest := by
      rw [← hrest, List.append_assoc, List.singleton_append]
    show insertIn reference (some entry) p'.entries.entries = _
    rw [hlist]
    exact insertIn_append hnew
  refine ⟨h.goesOn, ⟨_, hfilled.symm⟩, fun reference' x hx hnone' => ?_⟩
  unfold Pass.put at hx
  rw [Table.find?_insert] at hx
  by_cases he : reference = reference'
  · subst he
    rw [if_pos rfl] at hx
    cases hx
    exact ⟨entry, id, rfl, h.goesOn.le.objects id reference hid, hfor⟩
  · rw [if_neg he] at hx
    refine h.filled reference' x hx ?_
    unfold Pass.put
    rw [Table.find?_insert, if_neg he]
    exact hnone'

end Filled

/-- Wherever the walk begins, it fills what it adds. -/
def Fills (x : Walk α) : Prop :=
  ∀ r p a r' p', r.references.Sound → WalkYields x r p a r' p' → Filled r p r' p'

section Fills

variable {x : Walk α} {f : α → Walk β} {y : Run α}

theorem Fills.pure (a : α) : Fills (Pure.pure a : Walk α) := by
  rintro r p _ _ _ h ⟨⟩
  exact .of_realm (.refl h)

theorem Fills.bind (hx : Fills x) (hf : ∀ a, Fills (f a)) : Fills (x >>= f) := by
  intro r p b r' p' h hy
  obtain ⟨a, r₁, p₁, hya, hyb⟩ := walkYields_bind_iff.mp hy
  have hfirst : Filled r p r₁ p₁ := hx r p a r₁ p₁ h hya
  exact hfirst.trans (hf a r₁ p₁ b r' p' hfirst.goesOn.sound hyb)

/-- What is done in the realm adds nothing. -/
theorem Behaves.fills (hy : Behaves y) : Fills (liftM y) := by
  intro r p a r' p' h hyields
  obtain ⟨a', r₁, hrun, hpure⟩ := yields_bind_iff.mp hyields
  cases hpure
  exact .of_realm ((hy.steady []).goesOn h hrun)

theorem fills_get_bind {g : Pass → Walk β} (hg : ∀ p, Fills (g p)) : Fills (get >>= g) :=
  fun r p => hg p r p

/-- A walk that begins with a look at its pass, and goes on from there. -/
theorem fills_of_pass {g : Pass → Walk β}
    (hg : ∀ r p b r' p', r.references.Sound → WalkYields (g p) r p b r' p' → Filled r p r' p') :
    Fills (get >>= g) :=
  fun r p b r' p' h hy => hg r p b r' p' h hy

theorem fills_mapM {g : γ → Walk β} (hg : ∀ c, Fills (g c)) (l : List γ) : Fills (l.mapM g) := by
  induction l with
  | nil => exact Fills.pure []
  | cons c l ih =>
    rw [List.mapM_cons]
    exact (hg c).bind fun b => ih.bind fun bs => Fills.pure _

end Fills

/-- A machine whose walks fill what they add with entries for objects. -/
class FillingMachine [Machine] : Prop extends SafeMachine where
  fills : ∀ (p : Pass) (v : Value) (path : Option String) (r : Realm) (t : Tagged) (p' : Pass)
    (r' : Realm), r.references.Sound → Yields (suspendAt p v path) r (t, p') r' → Filled r p r' p'
  isFor : ∀ (id : ObjectId) (reference : String) (path : Option String) (r : Realm) (p : Pass)
    (entry : Entry) (r' : Realm) (p' : Pass), r.references.objects.find? id = some reference →
      WalkYields (entryOf id reference path) r p entry r' p' → entry.IsFor id reference

section Machine

variable [Machine] [FillingMachine]

theorem fills_child (v : Value) (parent : Option String) (step : PathStep) :
    Fills (child v parent step) := by
  unfold child
  refine fills_of_pass fun r p t r' p' h hy => ?_
  dsimp only at hy
  split at hy
  · exact Fills.pure _ r p t r' p' h hy
  · obtain ⟨⟨t', p₁⟩, r₁, p₂, hlift, hset⟩ := walkYields_bind_iff.mp hy
    obtain ⟨_, r₂, hsuspend, hpure⟩ := yields_bind_iff.mp hlift
    cases hpure
    cases hset
    exact FillingMachine.fills p v _ r _ _ _ h hsuspend

theorem fills_slotOf (key : Key) (d : Descriptor) (path : Option String) :
    Fills (slotOf key d path) := by
  unfold slotOf
  refine behaves_realm.fills.bind fun r => ?_
  cases d with
  | data v w e c => exact (fills_child v path _).bind fun value => Fills.pure _
  | accessor g s e c =>
    exact (fills_child _ path _).bind fun get => (fills_child _ path _).bind fun set => Fills.pure _

theorem fills_functionPayload (id : ObjectId) (path : Option String) :
    Fills (functionPayload id path) := by
  unfold functionPayload
  refine behaves_realm.fills.bind fun r => ?_
  split
  · next scope text h =>
    refine (behaves_capturedValues scope).fills.bind fun captured => ?_
    refine (fills_mapM (fun c => ?_) captured).bind fun captures => Fills.pure _
    exact (fills_child _ path _).bind fun t => Fills.pure _
  · next owner expression h =>
    refine (behaves_evalMember _ expression).fills.bind fun current => ?_
    exact (fills_child _ path _).bind fun class_ => Fills.pure _
  · refine behaves_realm.fills.bind fun r' => ?_
    split
    · exact Fills.pure _
    · refine (behaves_referenceFor id).fills.bind fun reference => ?_
      exact (behaves_describeFunction id).fills.bind fun text => (behaves_raise rfl).fills

theorem fills_payloadOf (type : ObjectType) (id : ObjectId) (path : Option String) :
    Fills (payloadOf type id path) := by
  have hone : ∀ (make : Tagged → Payload) (v : Value) (step : PathStep),
      Fills (do return make (← child v path step)) := fun make v step =>
    (fills_child v path step).bind fun t => Fills.pure _
  unfold payloadOf
  refine (behaves_kindOf id).fills.bind fun kind => ?_
  split
  · exact behaves_realm.fills.bind fun r => hone _ _ _
  · exact fills_functionPayload id path
  · next entries =>
    refine (fills_mapM (fun c => ?_) entries.entries).bind fun written => Fills.pure _
    exact (fills_child _ path _).bind fun key => (fills_child _ path _).bind fun value => Fills.pure _
  · next elements =>
    exact (fills_mapM (fun c => fills_child _ path _) _).bind fun written => Fills.pure _
  · exact hone _ _ _
  · exact Fills.pure _
  · exact (behaves_textOf? _ _).fills.bind fun message => (behaves_textOf? _ _).fills.bind fun name =>
      (behaves_textOf? _ _).fills.bind fun stack => Fills.pure _
  · exact Fills.pure _
  · exact hone _ _ _
  · exact hone _ _ _
  · exact Fills.pure _
  · exact Fills.pure _
  · exact hone (Payload.bytes · _ _) _ _
  · exact Fills.pure _

theorem fills_entryOf (id : ObjectId) (reference : String) (path : Option String) :
    Fills (entryOf id reference path) := by
  unfold entryOf
  refine (behaves_objectAt id).fills.bind fun o => behaves_realm.fills.bind fun r => ?_
  extract_lets types type kept rest
  have hrest : ∀ u, Fills (rest u) := by
    intro u
    have hproperty : ∀ c : Key × Descriptor, Fills (do
        let tagged ← taggedKey c.1
        return (tagged, ← slotOf c.1 c.2 path)) := fun c =>
      Behaves.fills ((ends_taggedKey c.1).behaves (steady_taggedKey c.1)) |>.bind fun tagged =>
        (fills_slotOf c.1 c.2 path).bind fun slot => Fills.pure _
    refine (fills_mapM hproperty kept).bind fun properties => ?_
    refine (behaves_objectAt id).fills.bind fun o' => (fills_child _ path _).bind fun prototype => ?_
    extract_lets finish
    have hfinish : ∀ payload, Fills (finish payload) := fun payload =>
      (behaves_objectAt id).fills.bind fun o'' => Fills.pure _
    clear_value finish type
    cases type with
    | some t =>
      refine (fills_payloadOf t id path).bind fun payload => ?_
      rw [pure_bind]
      exact hfinish _
    | none => exact hfinish _
  split
  · exact (behaves_raise rfl).fills.bind hrest
  · exact hrest ()

/-- **An object gets one entry**, unless its reference has one. -/
theorem fills_suspendObject (id : ObjectId) (path : Option String) :
    Fills (suspendObject id path) := by
  have hrefer : Fills (do
      let reference ← referenceFor id
      if !(← get).entries.contains reference then
        modify fun p => { p with entries := p.entries.insert reference none }
        let entry ← entryOf id reference path
        modify fun p => { p with entries := p.entries.insert reference (some entry) }
      return .entry reference : Walk Tagged) := by
    intro r p t r' p' h hy
    obtain ⟨reference, r₁, p₁, hreference, hy⟩ := walkYields_bind_iff.mp hy
    have hgiven : Filled r p r₁ p₁ :=
      (behaves_referenceFor id).fills r p reference r₁ p₁ h hreference
    have hid : r₁.references.objects.find? id = some reference := by
      cases hreference
      exact (h.ofObject id).2.2
    refine hgiven.trans ?_
    obtain ⟨p₂, r₂, p₃, hget, hy⟩ := walkYields_bind_iff.mp hy
    cases hget
    have hsound : r₁.references.Sound := hgiven.goesOn.sound
    cases hc : p₁.entries.contains reference with
    | true =>
      rw [hc] at hy
      exact Fills.pure _ r₁ p₁ t r' p' hsound hy
    | false =>
      rw [hc] at hy
      obtain ⟨_, r₃, p₃, htaken, hy⟩ := walkYields_bind_iff.mp hy
      cases htaken
      obtain ⟨entry, r₄, p₄, hentry, hy⟩ := walkYields_bind_iff.mp hy
      cases hy
      have hwalk : Filled r₁ (p₁.put reference none) r' p₄ :=
        fills_entryOf id reference path r₁ _ entry r' p₄ hsound hentry
      have hfor : entry.IsFor id reference :=
        FillingMachine.isFor id reference path r₁ _ entry r' p₄ hid hentry
      exact hwalk.fill (Table.contains_eq_false_iff.mp hc) hid hfor
  unfold suspendObject
  refine behaves_realm.fills.bind fun r => ?_
  split
  · exact Fills.pure _
  · refine fills_get_bind fun p => (behaves_kindOf id).fills.bind fun kind => ?_
    extract_lets refer
    have hpath : ∀ u, Fills (refer u) := fun _ => hrefer
    clear_value refer
    split
    · exact Fills.pure _
    · cases path with
      | some path => exact (behaves_recordPath id path).fills.bind hpath
      | none => exact hpath ()

theorem fills_taggedValue (v : Value) (path : Option String) : Fills (taggedValue v path) := by
  unfold taggedValue
  cases v with
  | symbol id => exact ((ends_taggedSymbol id).behaves (steady_taggedSymbol id)).fills
  | object id => exact fills_suspendObject id path
  | _ => exact Fills.pure _

end Machine

/-- **However deep the engine goes**, its walks fill what they add. -/
instance fillingMachine_engine (depth : ℕ) : @FillingMachine (engine depth) := by
  induction depth with
  | zero =>
    refine @FillingMachine.mk (engine 0) (safeMachine_engine 0) ?_ ?_
    · rintro p v path r t p' r' - ⟨⟩
    · exact fun id reference path r p entry r' p' hid hy => ⟨0, path, r, p, r', p', hid, hy⟩
  | succ depth ih =>
    refine @FillingMachine.mk (engine (depth + 1)) (safeMachine_engine _) ?_ ?_
    · exact fun p v path r t p' r' h hy => @fills_taggedValue (engine depth) ih v path r p t r' p' h hy
    · exact fun id reference path r p entry r' p' hid hy => ⟨_, path, r, p, r', p', hid, hy⟩

/-! ## Envelopes -/

namespace Envelope

/-- The reference stands at the root, or in an entry that is not one of the known ones. -/
def NewlyMentions (e : Envelope) (known : Table String Entry) (reference : String) : Prop :=
  e.root = .entry reference ∨ ∃ key entry, key ∉ known.keys ∧ e.entries.find? key = some entry ∧
    Tagged.entry reference ∈ entry.mentions

end Envelope

/-- No key of the table is a reference that is still to be given. -/
def References.HasPassed (ρ : References) (known : Table String Entry) : Prop :=
  ∀ n, ρ.next ≤ n → referenceOf n ∉ known.keys

section Envelope

variable [Machine] {r r' : Realm} {known : Table String Entry} {v : Value} {e : Envelope}

/-- The pass at the end of a walk holds the entries of the envelope. -/
theorem Yields.of_walkFrom {stop : Bool} {path : Option String}
    (h : Yields (walkFrom known stop v path) r e r') : ∃ p,
      Yields (suspendAt { entries := known.map some, stop } v path) r (e.root, p) r' ∧
        p.entries = e.entries.map some := by
  unfold walkFrom at h
  obtain ⟨⟨root, p⟩, r₁, hsuspend, h⟩ := yields_bind_iff.mp h
  obtain ⟨entries, r₂, hfinished, h⟩ := yields_bind_iff.mp h
  cases hl : finishedEntries p.entries.entries with
  | error cause =>
    rw [hl] at hfinished
    cases hfinished
  | ok l =>
    rw [hl] at hfinished
    cases hfinished
    cases h
    exact ⟨p, hsuspend, Table.eq_map_ofList (finishedEntries_eq_ok_iff.mp hl)⟩

theorem Yields.of_serialize {options : SuspendOptions}
    (h : Yields (serialize v options) r e r') : ∃ r₁,
      Yields (walkFrom options.known options.stop v options.path) r e r₁ ∧
        ∃ events, r' = { r₁ with events } := by
  unfold serialize at h
  obtain ⟨r₁, text, hboth, hnote⟩ := Yields.of_noted h
  obtain ⟨e', r₂, hwalk, hcheck⟩ := yields_bind_iff.mp hboth
  obtain ⟨r₃, r₄, hget, hcheck⟩ := yields_bind_iff.mp hcheck
  cases hget
  obtain ⟨rfl, rfl⟩ : e' = e ∧ r₂ = r₁ := by
    split at hcheck
    · obtain ⟨_, r₃, hsafe, hpure⟩ := yields_bind_iff.mp hcheck
      cases hpure
      cases hc : e.checkSafe with
      | error cause =>
        rw [hc] at hsafe
        cases hsafe
      | ok _ =>
        rw [hc] at hsafe
        cases hsafe
        exact ⟨rfl, rfl⟩
    · cases hcheck
      exact ⟨rfl, rfl⟩
  cases hnote
  exact ⟨_, hwalk, _, rfl⟩

end Envelope

/-! ## Supplied entries -/

section Supplied

variable {r r' : Realm} {known : Table String Entry} {e : Envelope}

/-- The walk behind an envelope. -/
theorem Yields.exists_pass {depth : ℕ} {v : Value} {options : SuspendOptions}
    (hsound : r.references.Sound) (htypes : r.HasTypes)
    (h : Yields (@serialize (engine depth) v options) r e r') : ∃ r₁ p,
      Filled r { entries := options.known.map some, stop := options.stop } r₁ p ∧
      Pass.Explored { entries := options.known.map some, stop := options.stop } p [e.root] ∧
      p.entries = e.entries.map some ∧ r'.references = r₁.references := by
  let _ : Machine := engine depth
  obtain ⟨r₁, hwalk, events, rfl⟩ := h.of_serialize
  obtain ⟨p, hsuspend, hentries⟩ := hwalk.of_walkFrom
  refine ⟨r₁, p, ?_, ?_, hentries, rfl⟩
  · exact FillingMachine.fills _ v _ r _ p r₁ hsound hsuspend
  · exact (SafeMachine.explores _ v _).of_yields htypes hsuspend

theorem prefix_of_map_some {t t' : Table String Entry}
    (h : (t.map some).entries <+: (t'.map some).entries) : t.entries <+: t'.entries := by
  have hinjective : Function.Injective fun q : String × Entry => (q.1, some q.2) := by
    rintro ⟨k, v⟩ ⟨k', v'⟩ hq
    simpa using hq
  obtain ⟨l, hl, hmap⟩ := List.prefix_map_iff.mp h
  rwa [List.map_injective_iff.mpr hinjective hmap]

/-- Where an entry was added, its reference is that of an object for which it was written. -/
theorem Filled.isFor {stop : Bool} {p : Pass} {r₁ : Realm}
    (h : Filled r { entries := known.map some, stop } r₁ p) (hentries : p.entries = e.entries.map some)
    {reference : String} {entry : Entry} (hnew : reference ∉ known.keys)
    (hfound : e.entries.find? reference = some entry) :
    ∃ id, r₁.references.objects.find? id = some reference ∧ entry.IsFor id reference := by
  have hp : p.entries.find? reference = some (some entry) := by
    rw [hentries, Table.find?_map, hfound, Option.map_some]
  have hnone : (known.map some).find? reference = none := by
    rw [Table.find?_map, Table.find?_eq_none_iff.mpr hnew, Option.map_none]
  obtain ⟨entry', id, hsome, hid, hfor⟩ := h.filled reference _ hp hnone
  cases hsome
  exact ⟨id, hid, hfor⟩

/-- What is mentioned at the root and in new entries has an entry. -/
theorem Pass.Explored.mem_keys {stop : Bool} {p : Pass}
    (h : Pass.Explored { entries := known.map some, stop } p [e.root])
    (hentries : p.entries = e.entries.map some) {reference : String}
    (hm : e.NewlyMentions known reference) : reference ∈ e.entries.keys := by
  have hplace : p.entries.contains reference = true → reference ∈ e.entries.keys := by
    intro hc
    rw [Table.contains_iff, hentries, Table.keys_map] at hc
    exact hc
  refine hplace ?_
  rcases hm with hroot | ⟨key, entry, hkey, hfound, hmentioned⟩
  · exact (h.knows e.root (List.mem_singleton_self _)).place reference hroot
  · have hdone : p.done key = some entry := by
      rw [Pass.done_eq_some_iff, hentries, Table.find?_map, hfound, Option.map_some]
    have hnew : (known.map some).contains key = false := by
      rw [Table.contains_eq_false_iff, Table.find?_map, Table.find?_eq_none_iff.mpr hkey,
        Option.map_none]
    exact (h.closed key entry hdone hnew _ hmentioned).place reference rfl

/-- **What `serialize` adds to the entries that it is given.** They come first in the envelope, as they
were. Each entry after them is written for an object, under the reference of this object, and what is
mentioned at the root and in these entries has an entry. If the realm has passed all keys that were
given, then an object that has got its reference by then, and is mentioned there, has an entry of its
own under a key that was not given; and the realm has passed all keys of the envelope in turn. -/
theorem serialize_extends (hsound : r.references.Sound) (htypes : r.HasTypes) {depth : ℕ} {v : Value}
    {path : Option String} {stop : Bool}
    (h : Yields (@serialize (engine depth) v { known, path, stop }) r e r') :
    known.entries <+: e.entries.entries ∧
    (∀ reference entry, reference ∉ known.keys → e.entries.find? reference = some entry →
      ∃ id, r'.references.objects.find? id = some reference ∧ entry.IsFor id reference) ∧
    (∀ reference, e.NewlyMentions known reference → reference ∈ e.entries.keys) ∧
    (r.references.HasPassed known → r'.references.HasPassed e.entries ∧
      ∀ id reference, r.references.objects.find? id = none →
        r'.references.objects.find? id = some reference → e.NewlyMentions known reference →
          reference ∉ known.keys ∧
            ∃ entry, e.entries.find? reference = some entry ∧ entry.IsFor id reference) := by
  obtain ⟨r₁, p, hfilled, hexplored, hentries, hreferences⟩ := h.exists_pass hsound htypes
  have hgoes : r.references.GoesOn r'.references := hreferences ▸ hfilled.goesOn
  have hkept : known.entries <+: e.entries.entries :=
    prefix_of_map_some (hentries ▸ hfilled.kept)
  have hnew : ∀ reference entry, reference ∉ known.keys → e.entries.find? reference = some entry →
      ∃ id, r'.references.objects.find? id = some reference ∧ entry.IsFor id reference :=
    fun _ _ hkey hfound => hreferences ▸ hfilled.isFor hentries hkey hfound
  have hplace : ∀ reference, e.NewlyMentions known reference → reference ∈ e.entries.keys :=
    fun _ => hexplored.mem_keys hentries
  refine ⟨hkept, hnew, hplace, fun hpassed => ⟨fun n hn hkey => ?_, ?_⟩⟩
  · by_cases hold : referenceOf n ∈ known.keys
    · exact hpassed n (hgoes.next.trans hn) hold
    · -- a key that was added is the reference of an object, and has been given
      obtain ⟨entry, hfound⟩ := Table.mem_keys_iff.mp hkey
      obtain ⟨id, hid, -⟩ := hnew _ entry hold hfound
      obtain ⟨m, hm, he⟩ := hgoes.sound.given id _ hid
      have hnm : n = m := referenceOf_injective he
      omega
  · intro id reference hunseen hid hm
    have hkey : reference ∉ known.keys := by
      rcases hgoes.objects id reference hid with hold | ⟨n, hn, rfl⟩
      · cases hunseen.symm.trans hold
      · exact hpassed n hn
    obtain ⟨entry, hfound⟩ := Table.mem_keys_iff.mp (hplace reference hm)
    obtain ⟨id', hid', hfor⟩ := hnew reference entry hkey hfound
    obtain rfl : id = id' := hgoes.sound.objects id id' reference hid hid'
    exact ⟨hkey, entry, hfound, hfor⟩

/-- An object that refers to itself. -/
def selfRealm : Realm := .small #[
    { prototype := none, kind := .ordinary
      properties := Table.ofList [(.text "self", .plain (.object 0))] }] 0

/-- One entry, for an object without properties. -/
def lone (reference : String) : Table String Entry := Table.ofList [(reference,
    { objectType := plainType, prototype := .simple .null, extensible := true, properties := []
      payload := .null })]

theorem selfRealm_hasPassed : selfRealm.references.HasPassed (lone "kept") := by
  intro n _ hn
  have hkey : referenceOf n = "kept" := List.mem_singleton.mp hn
  have hletters := congrArg String.toList hkey
  simp [referenceOf] at hletters

/-- The object that refers to itself, suspended into the entries of an earlier envelope. -/
theorem serialize_extends_self : ∃ e r',
    Yields (@serialize (engine 4) (.object 0) { known := lone "kept" }) selfRealm e r' ∧
      (lone "kept").entries <+: e.entries.entries ∧ r'.references.HasPassed e.entries := by
  have hok : (selfRealm.run (@serialize (engine 4) (.object 0) { known := lone "kept" })).1.isOk
      = true := by decide +kernel
  obtain ⟨e, r', hy⟩ := exists_yields_of_isOk hok
  obtain ⟨hkept, -, -, hpassed⟩ := serialize_extends (r := selfRealm) References.sound_empty rfl hy
  exact ⟨e, r', hy, hkept, (hpassed selfRealm_hasPassed).1⟩

/-! ## Entries of the realm itself -/

theorem References.HasPassed.mono {ρ ρ' : References} (h : ρ.HasPassed known) (hnext : ρ.next ≤ ρ'.next) :
    ρ'.HasPassed known := fun n hn => h n (hnext.trans hn)

/-- **A realm can always go on with its own envelopes.** Take a new realm after any operations, an
envelope of it, and any operations after that, with scripts that do what they please. Suspend any value
into the entries of this envelope then: every object that gets its reference only now, and is mentioned
at the root or in a new entry, has an entry of its own, under a key that the first envelope did not
have. The realm can go on with the new envelope in turn. -/
theorem serialize_extends_own {config : Config}
    {operations operations' : List (ℕ × (α : Type) × Operation α)} {out out' : Except Fault Unit}
    {depth depth' : ℕ} {v w : Value} {path : Option String} {stop : Bool} {e' : Envelope}
    {r₁ r₂ r₃ : Realm} (hr : (Realm.fresh config).run (drive operations) = (out, r))
    (htypes : r.HasTypes) (h : Yields (@serialize (engine depth) v { path, stop }) r e r₁)
    (hr₂ : r₁.run (drive operations') = (out', r₂)) (htypes₂ : r₂.HasTypes)
    (h' : Yields (@serialize (engine depth') w { known := e.entries }) r₂ e' r₃) :
    e.entries.entries <+: e'.entries.entries ∧ r₃.references.HasPassed e'.entries ∧
    ∀ id reference, r₂.references.objects.find? id = none →
      r₃.references.objects.find? id = some reference → e'.NewlyMentions e.entries reference →
        reference ∉ e.entries.keys ∧
          ∃ entry, e'.entries.find? reference = some entry ∧ entry.IsFor id reference := by
  have hsound : r.references.Sound := (sound_of_drive hr htypes).references
  have hnone : r.references.HasPassed {} := fun _ _ => List.not_mem_nil
  obtain ⟨-, -, -, hpassed⟩ := serialize_extends hsound htypes h
  have hgoes : r.references.GoesOn r₁.references :=
    (steady_perform depth (.serialize v { path, stop }) []).goesOn hsound h
  have hgoes₂ : r₁.references.GoesOn r₂.references :=
    (steady_drive operations' []).goesOn hgoes.sound hr₂
  have hown : r₂.references.HasPassed e.entries := (hpassed hnone).1.mono hgoes₂.next
  obtain ⟨hkept, -, -, hadded⟩ := serialize_extends hgoes₂.sound htypes₂ h'
  exact ⟨hkept, hadded hown⟩

/-- A script that makes an object. -/
def creation : List (ℕ × (α : Type) × Operation α) :=
  [(16, ⟨_, .evalScript "Object.create(null)"⟩)]

/-- The object of a script, suspended into the entries of an envelope of the realm. -/
theorem serialize_extends_own_creation : ∃ e r₁ r₂ e' r₃,
    Yields (@serialize (engine 1) (.bool true) {}) (Realm.fresh {}) e r₁ ∧
      r₁.run (drive creation) = (.ok (), r₂) ∧
      Yields (@serialize (engine 16) (.object 132) { known := e.entries }) r₂ e' r₃ ∧
      e.entries.entries <+: e'.entries.entries ∧ r₃.references.HasPassed e'.entries := by
  let all : Run Unit := do
    let e ← @serialize (engine 1) (.bool true) {}
    drive creation
    let _ ← @serialize (engine 16) (.object 132) { known := e.entries }
  have hall : ((Realm.fresh {}).run all).1.isOk = true := by decide +kernel
  obtain ⟨_, _, hy⟩ := exists_yields_of_isOk hall
  obtain ⟨e, r₁, h, hy⟩ := yields_bind_iff.mp hy
  obtain ⟨_, r₂, hr₂, hy⟩ := yields_bind_iff.mp hy
  obtain ⟨e', r₃, h', -⟩ := yields_bind_iff.mp hy
  have htypes : (Realm.fresh {}).HasTypes := hasTypes_fresh {}
  have htypes₁ : r₁.HasTypes := by
    have hends := (@ends_serialize (engine 1) (safeMachine_engine 1) (.bool true) {} rfl).runs _ htypes
    rw [h] at hends
    exact hends.1
  have htypes₂ : r₂.HasTypes := by
    have hscript := (@behaves_evalScript (engine 16) _ "Object.create(null)").ends.attempt
    have hdrive : Ends (drive creation) fun _ => True := hscript.bind fun _ _ => Ends.pure trivial
    have hends := hdrive.runs r₁ htypes₁
    rw [hr₂] at hends
    exact hends.1
  have hfresh : (Realm.fresh {}).run (drive []) = (.ok (), Realm.fresh {}) := rfl
  obtain ⟨hkept, hpassed, -⟩ := serialize_extends_own hfresh htypes h hr₂ htypes₂ h'
  exact ⟨e, r₁, r₂, e', r₃, h, hr₂, h', hkept, hpassed⟩

/-! ## Entries of another realm -/

/-- The pass that a walk begins with gives the supplied entries back. -/
theorem yields_walkFrom_known [Machine] {t : Tagged} {v : Value}
    (h : Yields (suspendAt { entries := known.map some, stop := false } v none) r
      (t, { entries := known.map some, stop := false }) r') :
    Yields (walkFrom known false v none) r ⟨known, t⟩ r' := by
  have hlist : Table.ofList known.entries = known :=
    Table.ext_entries (Table.entries_ofList known.nodup)
  refine h.bind ?_
  have hfinished : Yields (ofExcept (finishedEntries (known.map some).entries)) r' known.entries
      r' := by
    have hall : finishedEntries (known.map some).entries = .ok known.entries :=
      finishedEntries_eq_ok_iff.mpr rfl
    rw [hall]
    exact yields_ofExcept _ r'
  refine hfinished.bind ?_
  rw [hlist]
  exact Yields.pure _ r'

/-- **An object is lost if its reference is among the supplied keys.** Whatever the object holds, the
envelope has the supplied entries and no other one, and its root stands for one of them. -/
theorem yields_serialize_captured {id : ObjectId} {o : Object} {depth : ℕ}
    (hget : r.store.get id = .ok o) (hhost : r.hostPaths.pathOf? id = none)
    (hknown : (r.references.ofObject id).1 ∈ known.keys)
    (hsafe : Envelope.checkSafe ⟨known, .entry (r.references.ofObject id).1⟩ = .ok ()) :
    ∃ r', Yields (@serialize (engine (depth + 1)) (.object id) { known }) r
      ⟨known, .entry (r.references.ofObject id).1⟩ r' := by
  let _ : Machine := engine (depth + 1)
  let p : Pass := { entries := known.map some, stop := false }
  let r₁ : Realm := { r with references := (r.references.ofObject id).2 }
  have hplace : p.entries.contains (r.references.ofObject id).1 = true := by
    rw [Table.contains_iff, Table.keys_map]
    exact hknown
  have hrefer : Yields (referenceFor id) r (r.references.ofObject id).1 r₁ := yields_modifyGet _ r
  have hsuspend : @WalkYields _ (@suspendObject (engine depth) id none) r p
      (.entry (r.references.ofObject id).1) r₁ p := by
    refine ((yields_realm r).walk p).bind ?_
    rw [hhost]
    refine (walkYields_get r p).bind (((yields_kindOf hget).walk p).bind ?_)
    refine (hrefer.walk p).bind ((walkYields_get r₁ p).bind ?_)
    rw [hplace]
    exact WalkYields.pure _ r₁ p
  have hwalk : Yields (walkFrom known false (.object id) none) r
      ⟨known, .entry (r.references.ofObject id).1⟩ r₁ := yields_walkFrom_known hsuspend
  have hchecked : Yields (do
      let e ← walkFrom known false (.object id) none
      if (← get).config.verifyWireFormat then ofExcept e.checkSafe
      return e) r ⟨known, .entry (r.references.ofObject id).1⟩ r₁ := by
    refine hwalk.bind ((yields_get r₁).bind ?_)
    split
    · rw [hsafe]
      exact (yields_ofExcept () r₁).bind (Yields.pure _ r₁)
    · exact Yields.pure _ r₁
  exact ⟨_, hchecked.noted (Yields.pure _ r₁)⟩

/-- Its own reference is that of the one entry that is supplied. -/
theorem yields_serialize_captured_self : selfRealm.references.objects.find? 0 = none ∧
    ∃ r', Yields (@serialize (engine 1) (.object 0) { known := lone (referenceOf 0) }) selfRealm
      ⟨lone (referenceOf 0), .entry (referenceOf 0)⟩ r' := by
  have hget : selfRealm.store.get 0 = .ok selfRealm.store.objects[0] := rfl
  exact ⟨rfl, yields_serialize_captured hget rfl (by decide) rfl⟩

end Supplied

end Stasis
