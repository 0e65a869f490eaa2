import Mathlib
import Stasis.Proofs.Chains
import Stasis.Proofs.Linking
import Stasis.Proofs.Properties

/-!
# Linking objects

A prototype is given only if its chain can be followed to the end. How long that chain is by then
depends on what has been linked already: objects that are still bare have the chains of built-in
prototypes behind them.

* `IsRefused`: an action that is refused for the depth of a chain.
* `linkPrototype_cases`, `yields_linkProperties`: an object is given its prototype and properties.
* `linkEntry_cases`: a bare object becomes a copy, unless its chain is too long.
-/

namespace Stasis

variable {S : Session} {r r' r'' : Realm} {v w : Value} {ρ : References} {e : Envelope}
  {session : SessionId} {o cur cur' : Object} {id id' : ObjectId} {n d : ℕ}
  {P P' : ObjectId → Object → Object → Prop}

/-! ## Refusals -/

/-- The cause of failure of what gives up on a chain of prototypes. -/
def chainCause : EngineError := .heap (.tooDeep (maxChainDepth + 1) maxChainDepth)

/-- The action is refused for the depth of a chain of prototypes, in a realm that has the session. -/
def IsRefused {α : Type} (action : Run α) (r : Realm) (session : SessionId) (S : Session) : Prop :=
  ∃ r', Raises action r chainCause r' ∧ r'.sessions[session]? = some S

section Refused

variable {α β : Type} {x : Run α} {f : α → Run β} {a : α}

theorem IsRefused.bind (hx : IsRefused x r session S) (f : α → Run β) :
    IsRefused (x >>= f) r session S := by
  obtain ⟨r', hr, hs⟩ := hx
  exact ⟨r', hr.bind f, hs⟩

theorem Yields.bind_refused (hx : Yields x r a r') (hf : IsRefused (f a) r' session S) :
    IsRefused (x >>= f) r session S := by
  obtain ⟨r'', hr, hs⟩ := hf
  exact ⟨r'', hx.bind_raises hr, hs⟩

theorem IsRefused.forIn_cons {γ : Type} {f : γ → PUnit → Run (ForInStep PUnit)} {c : γ}
    (hc : IsRefused (f c ()) r session S) (l : List γ) :
    IsRefused (forIn (c :: l) PUnit.unit f) r session S := by
  rw [List.forIn_cons]
  exact hc.bind _

theorem Yields.forIn_cons_refused {γ : Type} {f : γ → PUnit → Run (ForInStep PUnit)} {c : γ}
    {l : List γ} (hc : Yields (f c ()) r (.yield ()) r')
    (hl : IsRefused (forIn l PUnit.unit f) r' session S) :
    IsRefused (forIn (c :: l) PUnit.unit f) r session S := by
  rw [List.forIn_cons]
  exact hc.bind_refused hl

end Refused

/-! ## Prototypes -/

/-- The prototype of the second object is the copy of that of the first one, or still the one it
began with. -/
def Object.HasPrototypeOf (known : WellKnown) (f : ObjectId → ObjectId) (o o' : Object) : Prop :=
  o'.prototype = o.prototype.map f ∨ ∃ p ∈ known.prototypes, o'.prototype = some p

/-- A chain that avoids an object is copied to one that avoids its copy, with the chain of a
built-in prototype at its end. -/
theorem chainAvoids_map (hc : r.CanResume v ρ e n) (hall : S.IsComplete r v ρ)
    (hid : r.Inner v id) (h : r.LinkingAt ρ session S P id cur r')
    (hP : ∀ id₁ o o', P id₁ o o' → o.HasPrototypeOf r.known (S.copyOf ρ) o') {b : ℕ}
    (hb : ∀ p ∈ r.known.prototypes, r.store.ChainWithin b (some p)) {m : ℕ} :
    ∀ {q : Option ObjectId}, (∀ x, q = some x → r.Holds v (.object x)) →
      r.store.ChainAvoids id m q →
      r'.store.ChainAvoids (S.copyOf ρ id) (m + b) (q.map (S.copyOf ρ)) := by
  have hnew : ∀ o, r.store.get (S.copyOf ρ id) ≠ .ok o := fun o ho =>
    absurd (Store.lt_size_of_get ho) (not_lt_of_ge (hall.fresh id _ (hall.hasMade hid)))
  have hgrows : ∀ x o, r.store.get x = .ok o → r'.store.get x = .ok o := h.grows.objects
  induction m with
  | zero =>
    rintro (_ | x) - ha
    · cases b <;> trivial
    · exact ha.elim
  | succ m ih =>
    rintro (_ | x) hq ha
    · rw [Nat.succ_add]
      trivial
    · have hx := hq x rfl
      cases hhost : r.hostPaths.contains x with
      | true =>
        rw [Option.map_some, hall.host x hhost]
        exact (ha.within.avoids_new hgrows hnew).mono (Nat.le_add_right _ _)
      | false =>
        obtain ⟨hne, ox, hox, hrest⟩ := ha
        have hmade := hall.hasMade ⟨hx, hhost⟩
        obtain ⟨o', ho', hp⟩ := h.objects x _ ox hmade hox
        rw [if_neg hne] at hp
        rw [Option.map_some, Nat.succ_add]
        refine ⟨fun he => hne (copyOf_injective hc hall hx hid.1 he), o', ho', ?_⟩
        rcases hP x ox o' hp with hp | ⟨p, hmem, hp⟩
        · rw [hp]
          refine ih (fun y hy => ?_) hrest
          exact .step hx hhost hox (Object.mem_values_iff.mpr (Or.inl ⟨y, hy, rfl⟩))
        · rw [hp]
          exact ((hb p hmem).avoids_new hgrows hnew).mono (Nat.le_add_left _ _)

/-- **An object is given its prototype**, as no chain comes back to it; or the chain is too long to be
followed. -/
theorem linkPrototype_cases (hc : r.CanResume v ρ e n) (hall : S.IsComplete r v ρ) (hd : n ≤ d)
    {a b : ℕ} (hchains : r.ChainsWithin v a b) (hid : r.Inner v id) (hm : S.HasMade ρ id id')
    (ho : r.store.get id = .ok o) (h : r.LinkingAt ρ session S P id cur r')
    (hP : ∀ id₁ o o', P id₁ o o' → o.HasPrototypeOf r.known (S.copyOf ρ) o')
    (hcur : cur.extensible = true) (reference : String) :
    (∃ r'', Yields (@linkPrototype (engine (d + 1)) session reference id'
        (r.written ρ ((o.prototype.map Value.object).getD .null))) r' () r''
      ∧ r.LinkingAt ρ session S P id { cur with prototype := o.prototype.map (S.copyOf ρ) } r'') ∨
    (maxChainDepth + 1 < a + b ∧ IsRefused (@linkPrototype (engine (d + 1)) session reference id'
        (r.written ρ ((o.prototype.map Value.object).getD .null))) r' session S) := by
  let _ : Machine := engine (d + 1)
  have hheld : ∀ x, o.prototype = some x → r.Holds v (.object x) := fun x hx =>
    .step hid.1 hid.2 ho (Object.mem_values_iff.mpr (Or.inl ⟨x, hx, rfl⟩))
  obtain ⟨r₁, hy, hg, hs⟩ := yields_resolve_made (w := (o.prototype.map Value.object).getD .null)
    hc hall hd h (by
      cases hp : o.prototype with
      | none => trivial
      | some x => exact hheld x hp)
  have h₁ : r.LinkingAt ρ session S P id cur r₁ := h.grow hg hs
  have hget := h₁.get hm ho
  have havoids := chainAvoids_map hc hall hid h₁ hP hchains.known hheld
    ((hchains.graph id o hid ho).avoids ho)
  rw [hm.copyOf] at havoids
  have hlink : (∃ r'', Yields (linkPrototype.link reference id' (o.prototype.map (S.copyOf ρ))) r₁ ()
      r'' ∧ r.LinkingAt ρ session S P id { cur with prototype := o.prototype.map (S.copyOf ρ) } r'') ∨
      (maxChainDepth + 1 < a + b ∧
        IsRefused (linkPrototype.link reference id' (o.prototype.map (S.copyOf ρ))) r₁ session S) := by
    by_cases hsame : cur.prototype = o.prototype.map (S.copyOf ρ)
    · refine .inl ⟨r₁, (yields_changeStore (a := true) (s := r₁.store) ?_).bind (Yields.pure _ _), ?_⟩
      · simp [Store.setPrototype, hget, hsame, bind, Except.bind, pure, Except.pure]
      · rw [← hsame]
        exact h₁
    · rcases Store.checkChain_cases havoids (maxChainDepth + 1) with hcheck | ⟨hlong, hcheck⟩
      · refine .inl ⟨_, (yields_changeStore (a := true) ?_).bind (Yields.pure _ _),
          h₁.set hall hm ho _⟩
        simp [Store.setPrototype, hget, hsame, hcur, hcheck, bind, Except.bind, pure, Except.pure]
      · refine .inr ⟨hlong, r₁, (raises_changeStore ?_).bind _, h₁.session⟩
        simp [Store.setPrototype, hget, hsame, hcur, hcheck, bind, Except.bind]
  refine hlink.imp (fun ⟨r'', hlink, hlinking⟩ => ⟨r'', hy.bind ?_, hlinking⟩)
    (fun ⟨hlong, hlink⟩ => ⟨hlong, hy.bind_refused ?_⟩)
  · cases hp : o.prototype <;> rw [hp] at hlink <;> exact hlink
  · cases hp : o.prototype <;> rw [hp] at hlink <;> exact hlink

/-! ## Properties -/

/-- A function in a graph of data is one of the host. -/
theorem isHost_of_isFunction (hc : r.CanResume v ρ e n) (hw : r.Holds v (.object id))
    (hf : r.store.isFunction id = true) : r.hostPaths.contains id = true := by
  cases hhost : r.hostPaths.contains id with
  | true => rfl
  | false =>
    obtain ⟨o, ho⟩ := hc.data.found id hw
    have hdata := hc.data.data id o ⟨hw, hhost⟩ ho
    simp only [Store.isFunction, Store.get_eq_ok_iff.mp ho, Option.any_some] at hf
    cases hk : o.kind <;> rw [hk] at hf hdata <;> first | exact hdata.elim | cases hf

/-- Half of an accessor is read as what it was. -/
theorem yields_resolveHalf (hc : r.CanResume v ρ e n) (hall : S.IsComplete r v ρ) (hd : n ≤ d)
    (h : r.Linking ρ session S P r') {g : Option ObjectId}
    (hg : ∀ x, g = some x → r.Holds v (.object x) ∧ r.store.isFunction x = true) (half : String) :
    ∃ r'', Yields (@resolveHalf (engine (d + 1)) session
        (r.written ρ ((g.map Value.object).getD .undefined)) half) r' (g.map (S.copyOf ρ)) r''
      ∧ r'.Grows r'' ∧ r''.sessions = r'.sessions := by
  obtain ⟨r'', hy, hgrows, hs⟩ := yields_resolve_made
    (w := (g.map Value.object).getD .undefined) hc hall hd h (by
      cases hg' : g with
      | none => trivial
      | some x => exact (hg x hg').1)
  refine ⟨r'', hy.bind ?_, hgrows, hs⟩
  cases hg' : g with
  | none => exact Yields.pure _ r''
  | some x =>
    obtain ⟨hheld, hfun⟩ := hg x hg'
    obtain ⟨ox, hox⟩ := hc.data.found x hheld
    have hox'' : r''.store.get x = .ok ox := (h.grows.trans hgrows).objects x ox hox
    have hfun'' : r''.store.isFunction x = true := by
      simp only [Store.isFunction, Store.get_eq_ok_iff.mp hox, Store.get_eq_ok_iff.mp hox''] at hfun ⊢
      exact hfun
    have hself := hall.host x (isHost_of_isFunction hc hheld hfun)
    simp only [Option.map_some, Option.getD_some, Value.map, hself]
    refine (yields_get r'').bind ?_
    rw [hfun'', if_pos rfl]
    exact Yields.pure _ r''

/-- A property is read as its copy, whatever is there already. -/
theorem yields_resolveSlot (hc : r.CanResume v ρ e n) (hall : S.IsComplete r v ρ) (hd : n ≤ d)
    (h : r.Linking ρ session S P r') {p : Descriptor} (hheld : ∀ w ∈ p.values, r.Holds v w)
    (hp : p.Sound r.store) (present : Option Descriptor) :
    ∃ r'', Yields (@resolveSlot (engine (d + 1)) session (r.writtenSlot ρ p) present) r'
        (p.map (S.copyOf ρ)) r''
      ∧ r'.Grows r'' ∧ r''.sessions = r'.sessions := by
  cases p with
  | data w writable enumerable configurable =>
    obtain ⟨r'', hy, hgrows, hs⟩ := yields_resolve_made hc hall hd h
      (hc.written.isReadable hc.data hc.numbers (hheld w List.mem_cons_self))
    exact ⟨r'', hy.bind (Yields.pure _ r''), hgrows, hs⟩
  | accessor g s enumerable configurable =>
    have hget : ∀ x, g = some x → r.Holds v (.object x) ∧ r.store.isFunction x = true := by
      rintro x rfl
      exact ⟨hheld _ List.mem_cons_self, hp x List.mem_cons_self⟩
    have hset : ∀ x, s = some x → r.Holds v (.object x) ∧ r.store.isFunction x = true := by
      rintro x rfl
      have hx : x ∈ g.toList ++ [x] := List.mem_append_right _ (List.mem_singleton_self x)
      exact ⟨hheld _ (List.mem_map_of_mem hx), hp x hx⟩
    obtain ⟨r₁, hy₁, hg₁, hs₁⟩ := yields_resolveHalf hc hall hd h hget "get"
    obtain ⟨r₂, hy₂, hg₂, hs₂⟩ := yields_resolveHalf hc hall hd (h.grow hg₁ hs₁) hset "set"
    exact ⟨r₂, hy₁.bind (hy₂.bind (Yields.pure _ r₂)), hg₁.trans hg₂, hs₂.trans hs₁⟩

/-- A key is read as what it was. -/
theorem yields_resolveKey (hc : r.CanResume v ρ e n) (hall : S.IsComplete r v ρ) (hd : n ≤ d)
    (h : r.Linking ρ session S P r') {k : Key} (hk : r.IsReadable v ρ k.toValue)
    (reference : String) :
    ∃ r'', Yields (@resolveKey (engine (d + 1)) session reference (r.written ρ k.toValue)) r' k r''
      ∧ r'.Grows r'' ∧ r''.sessions = r'.sessions := by
  obtain ⟨r'', hy, hgrows, hs⟩ := yields_resolve_made hc hall hd h hk
  refine ⟨r'', hy.bind ?_, hgrows, hs⟩
  cases k <;> exact Yields.pure _ r''

/-- An object is given a property. -/
theorem yields_linkProperty (hc : r.CanResume v ρ e n) (hall : S.IsComplete r v ρ) (hd : n ≤ d)
    (hid : r.Inner v id) (hm : S.HasMade ρ id id') (ho : r.store.get id = .ok o)
    (h : r.LinkingAt ρ session S P id cur r') {q : Key × Descriptor} (hq : q ∈ o.ownEntries)
    (hlink : cur.link? (q.1, q.2.map (S.copyOf ρ)) = some cur') (reference : String) :
    ∃ r'', Yields (@linkProperty (engine (d + 1)) session reference id' (r.written ρ q.1.toValue)
        (r.writtenSlot ρ q.2)) r' () r''
      ∧ r.LinkingAt ρ session S P id cur' r'' := by
  let _ : Machine := engine (d + 1)
  obtain ⟨hkey, hvalues⟩ := o.property_mem_refers hq
  obtain ⟨r₁, hy₁, hg₁, hs₁⟩ := yields_resolveKey hc hall hd h
    (hc.written.isReadable_refers hc.data hc.numbers hid ho hkey) reference
  have h₁ : r.LinkingAt ρ session S P id cur r₁ := h.grow hg₁ hs₁
  obtain ⟨r₂, hy₂, hg₂, hs₂⟩ := yields_resolveSlot hc hall hd h₁ (p := q.2)
    (fun w hw => .step hid.1 hid.2 ho
      (Object.mem_values_iff.mpr (Or.inr (Or.inl ⟨q.1, q.2, hq, hw⟩))))
    ((hc.sound.objects id o ho).properties q.2
      (List.mem_map_of_mem (Table.find?_eq_some_iff.mp (Object.mem_ownEntries_iff.mp hq))))
    (cur.own? q.1)
  have h₂ : r.LinkingAt ρ session S P id cur r₂ := Realm.Linking.grow h₁ hg₂ hs₂
  have hget := h₂.get hm ho
  by_cases hsame : (cur.own? q.1).any (fun old => old.sameAs (q.2.map (S.copyOf ρ))) = true
  · rw [Object.link?, if_pos hsame, Option.some.injEq] at hlink
    subst hlink
    refine ⟨r₂, hy₁.bind ((yields_objectAt (h₁.get hm ho)).bind (hy₂.bind ?_)), h₂⟩
    rw [if_pos hsame]
    exact Yields.pure _ r₂
  · rw [Object.link?, if_neg hsame] at hlink
    refine ⟨_, hy₁.bind ((yields_objectAt (h₁.get hm ho)).bind (hy₂.bind ?_)),
      h₂.set hall hm ho cur'⟩
    rw [if_neg hsame]
    exact (yields_define hget hlink).bind (Yields.pure _ _)

/-- **An object is given its properties**, one after another. -/
theorem yields_linkProperties (hc : r.CanResume v ρ e n) (hall : S.IsComplete r v ρ) (hd : n ≤ d)
    (hid : r.Inner v id) (hm : S.HasMade ρ id id') (ho : r.store.get id = .ok o)
    (reference : String) {l : List (Key × Descriptor)} (hl : ∀ q ∈ l, q ∈ o.ownEntries) :
    ∀ {r' cur}, r.LinkingAt ρ session S P id cur r' →
      (l.map fun q => (q.1, q.2.map (S.copyOf ρ))).foldlM Object.link? cur = some cur' →
      ∃ r'', Yields (forIn (l.map fun q => (r.written ρ q.1.toValue, r.writtenSlot ρ q.2))
          PUnit.unit fun x _ => do
            @linkProperty (engine (d + 1)) session reference id' x.1 x.2
            pure (ForInStep.yield PUnit.unit)) r' () r''
        ∧ r.LinkingAt ρ session S P id cur' r'' := by
  induction l with
  | nil =>
    intro r' cur h hfold
    obtain rfl : cur = cur' := Option.some.inj hfold
    exact ⟨r', yields_forIn_nil _ r', h⟩
  | cons q l ih =>
    intro r' cur h hfold
    obtain ⟨hq, hrest⟩ := List.forall_mem_cons.mp hl
    rw [List.map_cons, List.foldlM_cons] at hfold
    obtain ⟨cur₁, hlink, hfold⟩ := Option.bind_eq_some_iff.mp hfold
    obtain ⟨r₁, hy₁, h₁⟩ := yields_linkProperty hc hall hd hid hm ho h hq hlink reference
    obtain ⟨r'', hy, h''⟩ := ih hrest h₁ hfold
    exact ⟨r'', yields_forIn_cons (hy₁.bind (Yields.pure _ _)) hy, h''⟩

/-! ## Objects -/

theorem Kind.IsCopy.isArray {f : ObjectId → ObjectId} {k k' : Kind} (h : k.IsCopy f k') :
    k'.isArray = k.isArray := by
  cases k with
  | promise state => cases state <;> cases k' <;> first | rfl | exact h.elim
  | _ => cases k' <;> first | rfl | exact h.elim

/-- What an object is given besides what its kind holds. -/
def linkRest [Machine] (session : SessionId) (reference : String) (id : ObjectId) (entry : Entry) :
    Run Unit := do
  linkPrototype session reference id entry.prototype
  for (k, s) in entry.properties do
    linkProperty session reference id k s
  if !entry.extensible then
    changeStore fun s => do return (← s.modify id fun o => { o with extensible := false }, ())

/-- An object that has been given what its kind holds is given everything else, unless its chain is too
long. -/
theorem linkRest_cases (hc : r.CanResume v ρ e n) (hall : S.IsComplete r v ρ) (hd : n ≤ d)
    (harrays : r.ArraysEnd v) {a b : ℕ} (hchains : r.ChainsWithin v a b) (hid : r.Inner v id)
    (hm : S.HasMade ρ id id') (ho : r.store.get id = .ok o) (h : r.LinkingAt ρ session S P id cur r')
    (hP : ∀ id₁ o o', P id₁ o o' → o.HasPrototypeOf r.known (S.copyOf ρ) o')
    (hext : cur.extensible = true)
    (hprops : cur.properties.entries = if o.kind.isArray then [(Key.length, newLength)] else [])
    (hk : o.kind.IsCopy (S.copyOf ρ) cur.kind) (reference : String) :
    (∃ r'' o', Yields (@linkRest (engine (d + 1)) session reference id' (r.writtenEntry ρ o)) r' () r''
      ∧ r.LinkingAt ρ session S P id o' r'' ∧ o.IsCopy (S.copyOf ρ) o') ∨
    (maxChainDepth + 1 < a + b ∧
      IsRefused (@linkRest (engine (d + 1)) session reference id' (r.writtenEntry ρ o)) r' session S) := by
  rcases linkPrototype_cases hc hall hd hchains hid hm ho h hP hext reference with
    ⟨r₁, hy₁, h₁⟩ | ⟨hlong, hrefused⟩
  · left
    obtain ⟨o₂, hfold, hsame, hentries⟩ := Object.linkAll_ownEntries (o := o) (S.copyOf ρ)
      (show ({ cur with prototype := o.prototype.map (S.copyOf ρ) } : Object).extensible = true
        from hext) hprops hk.isArray (hc.sound.objects id o ho).array (harrays id o hid ho)
    obtain ⟨r₂, hy₂, h₂⟩ := yields_linkProperties hc hall hd hid hm ho reference
      (fun q hq => hq) h₁ hfold
    have hkind : o.kind.IsCopy (S.copyOf ρ) o₂.kind := hsame.kind.symm ▸ hk
    cases hoext : o.extensible with
    | true =>
      refine ⟨r₂, o₂, hy₁.bind (hy₂.bind ?_), h₂, hsame.prototype, ?_, hentries, hkind⟩
      · simp only [Realm.writtenEntry, hoext, Bool.not_true, Bool.false_eq_true, if_false]
        exact Yields.pure _ r₂
      · rw [hsame.extensible, hext, hoext]
    | false =>
      refine ⟨_, { o₂ with extensible := false }, hy₁.bind (hy₂.bind ?_), h₂.set hall hm ho _,
        hsame.prototype, hoext.symm, hentries, hkind⟩
      simp only [Realm.writtenEntry, hoext, Bool.not_false, if_true]
      refine yields_changeStore ?_
      simp [Store.modify, h₂.get hm ho, bind, Except.bind, pure, Except.pure]
  · exact .inr ⟨hlong, hrefused.bind _⟩

/-- **A bare object becomes a copy** when it is linked, unless its chain is too long. -/
theorem linkEntry_cases (hc : r.CanResume v ρ e n) (hall : S.IsComplete r v ρ) (hd : n ≤ d)
    (harrays : r.ArraysEnd v) {a b : ℕ} (hchains : r.ChainsWithin v a b) (hid : r.Inner v id)
    {reference : String} (hf : ρ.objects.find? id = some reference)
    (hm : S.made.find? reference = some (.object id')) (ho : r.store.get id = .ok o)
    (h : r.LinkingAt ρ session S P id cur r')
    (hP : ∀ id₁ o o', P id₁ o o' → o.HasPrototypeOf r.known (S.copyOf ρ) o')
    (hbare : o.IsBare r.known (S.copyOf ρ) cur) :
    (∃ r'' o', Yields (@linkEntry (engine (d + 1)) session reference (r.writtenEntry ρ o)) r' () r''
      ∧ r.LinkingAt ρ session S P id o' r'' ∧ o.IsCopy (S.copyOf ρ) o') ∨
    (maxChainDepth + 1 < a + b ∧
      IsRefused (@linkEntry (engine (d + 1)) session reference (r.writtenEntry ρ o)) r' session S) := by
  let _ : Machine := engine (d + 1)
  have hmade : S.HasMade ρ id id' := ⟨reference, hf, hm⟩
  have hentry : Yields (resolveEntry session reference) r' (.object id') r' := by
    refine (yields_sessionAt h.session).bind ?_
    simp only [hm]
    exact Yields.pure _ r'
  -- the payload is read first, and what is left is the same for all kinds
  obtain ⟨r₁, k, hrest, h₁, hk⟩ : ∃ r₁ k, (∀ out, r₁.run (linkRest session reference id'
      (r.writtenEntry ρ o)) = out → r'.run (linkEntry session reference (r.writtenEntry ρ o)) = out) ∧
      r.LinkingAt ρ session S P id { cur with kind := k } r₁ ∧ o.kind.IsCopy (S.copyOf ρ) k := by
    cases ht : o.kind.type? with
    | none =>
      have hk : o.kind.IsCopy (S.copyOf ρ) cur.kind := by
        have hkind := hbare.kind
        cases hk : o.kind <;> rw [hk] at ht hkind <;> first | exact hkind | cases ht
      have hplain : (r.writtenEntry ρ o).objectType = plainType := by simp [Realm.writtenEntry, ht]
      refine ⟨r', cur.kind, fun out hrun => (hentry.run_bind _).trans ?_, h, hk⟩
      simp only [hplain, ne_eq, not_true_eq_false, if_false]
      exact hrun
    | some type =>
      have hname : (r.writtenEntry ρ o).objectType = type.name := by simp [Realm.writtenEntry, ht]
      have hpayload : (r.writtenEntry ρ o).payload = (r.writtenPayload ρ o.kind).toJson := by
        simp [Realm.writtenEntry, ht]
      obtain ⟨r₁, k, hy₁, h₁, hk⟩ := yields_linkPayload hc hall hd hid hmade ho h ht hbare.kind
      refine ⟨r₁, k, fun out hrun => (hentry.run_bind _).trans ?_, h₁, hk⟩
      simp only [hname, ne_eq, name_ne_plainType, not_false_eq_true, if_true, hpayload]
      rw [(yields_typeNamed (h.grows.types.trans hc.sound.types) type).run_bind, hy₁.run_bind]
      exact hrun
  rcases linkRest_cases hc hall hd harrays hchains hid hmade ho h₁ hP hbare.extensible
      hbare.properties hk reference with ⟨r'', o', hy, h', hcopy⟩ | ⟨hlong, r'', hr, hs⟩
  · exact .inl ⟨r'', o', hrest _ hy, h', hcopy⟩
  · exact .inr ⟨hlong, r'', hrest _ hr, hs⟩

end Stasis
