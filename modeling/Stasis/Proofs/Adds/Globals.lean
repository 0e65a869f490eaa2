import Mathlib
import Stasis.Engine
import Stasis.Proofs.Adds.Basic

/-!
# A fresh realm is tame

Of the built-in functions, those that can be looked up under the names by which paths and
conversions call, and those that are getters, only read. Which functions these are is seen from the
lists of members; that the objects are built as the lists say is shown for each step of building.

* `Member.isTame`, `Constructor.isTame`: what is seen from a list.
* `Build.Keeps`: a step of building that keeps a store tame.
* `isTame_fresh`: a fresh realm is tame.
-/

namespace Stasis

/-- No function that does more than read is called for the property. -/
def Member.isTame : Member → Bool
  | .method name op _ => !(Key.text name).isAsked || op.isReader
  | .getter name op => !(Key.text name).isAsked && op.isReader
  | .value name d => !(Key.text name).isAsked && d.isData

/-- The constructor has such properties only, and so has its prototype. -/
def Constructor.isTame (c : Constructor) : Bool :=
  !(Key.text c.name).isAsked && (c.statics ++ c.members).all Member.isTame

/-- The second store comes from the first one: it is tame as well, and every object is of the kind
that it was. -/
structure Store.BuildsTo (s s' : Store) : Prop where
  tame : s.IsTame → s'.IsTame
  kinds : ∀ id o, s.get id = .ok o → ∃ o', s'.get id = .ok o' ∧ o'.kind = o.kind

/-- Whatever store the step begins with, it keeps it tame. -/
def Build.Keeps {α : Type} (x : Build α) : Prop := ∀ s : Store, s.BuildsTo (x.run s).2

namespace Store

variable {s s' s'' : Store} {id : ObjectId} {o : Object} {key : Key} {d : Descriptor}

theorem BuildsTo.refl (s : Store) : s.BuildsTo s := ⟨id, fun _ o ho => ⟨o, ho, rfl⟩⟩

theorem BuildsTo.trans (h : s.BuildsTo s') (h' : s'.BuildsTo s'') : s.BuildsTo s'' where
  tame ht := h'.tame (h.tame ht)
  kinds id o ho := by
    obtain ⟨o', ho', hkind⟩ := h.kinds id o ho
    obtain ⟨o'', ho'', hkind'⟩ := h'.kinds id o' ho'
    exact ⟨o'', ho'', hkind'.trans hkind⟩

theorem buildsTo_alloc (s : Store) (prototype : Option ObjectId) (kind : Kind) :
    s.BuildsTo (s.alloc prototype kind).2 := by
  have hkinds : ∀ id o, s.get id = .ok o →
      ∃ o', (s.alloc prototype kind).2.get id = .ok o' ∧ o'.kind = o.kind :=
    fun _ o ho => ⟨o, get_push ho, rfl⟩
  refine ⟨fun ht id o ho key d hd => ?_, hkinds⟩
  obtain ho | ⟨-, rfl⟩ := get_push_cases ho
  · exact (ht id o ho key d hd).mono fun f hf => hf.mono hkinds
  · cases hd

/-- An object that gets a tame property stays tame. -/
theorem buildsTo_define (hd : d.IsTame s key) (id : ObjectId) :
    s.BuildsTo ⟨s.objects.modify id fun o => (o.define key d).1⟩ := by
  have hget : ∀ id' o', (Store.mk (s.objects.modify id fun o => (o.define key d).1)).get id' = .ok o' ↔
      ∃ o, s.get id' = .ok o ∧ o' = if id = id' then (o.define key d).1 else o := by
    intro id' o'
    rw [get_eq_ok_iff, Array.getElem?_modify]
    simp only [get_eq_ok_iff]
    split <;> cases s.objects[id']? <;> simp [eq_comm]
  have hkinds : ∀ id' o, s.get id' = .ok o →
      ∃ o', (Store.mk (s.objects.modify id fun o => (o.define key d).1)).get id' = .ok o' ∧
        o'.kind = o.kind := by
    intro id' o ho
    refine ⟨_, (hget id' _).mpr ⟨o, ho, rfl⟩, ?_⟩
    split
    · exact o.kind_define key d
    · rfl
  refine ⟨fun ht id' o' ho' key' d' hd' => ?_, hkinds⟩
  obtain ⟨o, ho, rfl⟩ := (hget id' o').mp ho'
  have htame : d'.IsTame s key' := by
    split at hd'
    · obtain hold | ⟨rfl, rfl⟩ | ⟨rfl, hdata⟩ := Object.own?_define_cases hd'
      · exact ht id' o ho key' d' hold
      · exact hd
      · cases d' with
        | data => exact nofun
        | accessor => cases hdata
    · exact ht id' o ho key' d' hd'
  exact htame.mono fun f hf => hf.mono hkinds

end Store

/-! ## Steps of building -/

namespace Build

variable {α β : Type} {x : Build α} {f : α → Build β}

theorem Keeps.pure (a : α) : Keeps (Pure.pure a) := Store.BuildsTo.refl

theorem Keeps.bind (hx : Keeps x) (hf : ∀ a, Keeps (f a)) : Keeps (x >>= f) := fun s =>
  (hx s).trans (hf (x.run s).1 (x.run s).2)

theorem Keeps.forM {f : α → Build PUnit} {l : List α} (h : ∀ a ∈ l, Keeps (f a)) :
    Keeps (l.forM f) := by
  induction l with
  | nil => exact Keeps.pure _
  | cons a l ih =>
    exact (h a List.mem_cons_self).bind fun _ => ih fun a ha => h a (List.mem_cons_of_mem _ ha)

theorem Keeps.forIn {σ : Type} {f : α → σ → Build (ForInStep σ)} {l : List α}
    (h : ∀ a ∈ l, ∀ s, Keeps (f a s)) : ∀ s, Keeps (forIn l s f) := by
  induction l with
  | nil => exact fun _ => Keeps.pure _
  | cons a l ih =>
    intro s
    rw [List.forIn_cons]
    refine (h a List.mem_cons_self s).bind fun next => ?_
    cases next with
    | done s => exact Keeps.pure s
    | yield s => exact ih (fun a ha => h a (List.mem_cons_of_mem _ ha)) s

theorem keeps_addObject (behind : Option ObjectId) (kind : Kind) : Keeps (addObject behind kind) :=
  fun s => s.buildsTo_alloc behind kind

/-- A property under whose key nothing is looked up to be called. -/
theorem keeps_put (id : ObjectId) {name : String} {d : Descriptor}
    (h : (!(Key.text name).isAsked && d.isData) = true) : Keeps (put id name d) := by
  intro s
  refine Store.buildsTo_define ?_ id
  rw [Bool.and_eq_true, Bool.not_eq_true'] at h
  cases d with
  | data => exact fun hasked => by simp [h.1] at hasked
  | accessor => cases h.2

theorem keeps_addFunction (behind : ObjectId) (op : Native) (name : String) (length : ℕ) :
    Keeps (addFunction behind op name length) :=
  (keeps_addObject _ _).bind fun id => (keeps_put id rfl).bind fun _ =>
    (keeps_put id rfl).bind fun _ => Keeps.pure _

/-- A function that is added only reads, if that is what its name in the engine says. -/
theorem isReader_addFunction {op : Native} (h : op.isReader = true) (behind : ObjectId)
    (name : String) (length : ℕ) (s : Store) :
    ((addFunction behind op name length).run s).2.IsReader
      ((addFunction behind op name length).run s).1 := by
  have hnew : (s.alloc (some behind) (.function (.native op none))).2.IsReader s.size := by
    refine ⟨_, Store.get_push_size _, ?_⟩
    rintro b ⟨⟩
    exact ⟨op, none, rfl, h⟩
  have hputs : Keeps (do
      put s.size "length" (.readonly (.number (Float.ofNat length)))
      put s.size "name" (.readonly (.text name))) :=
    (keeps_put _ rfl).bind fun _ => keeps_put _ rfl
  exact hnew.mono (hputs _).kinds

theorem keeps_addMember (id : ObjectId) {m : Member} (h : m.isTame = true) :
    Keeps (addMember id m) := by
  intro s
  cases m with
  | method name op length =>
    refine (keeps_addFunction _ _ _ _ s).trans (Store.buildsTo_define ?_ id)
    rintro hasked f ⟨⟩
    have hreads : op.isReader = true := by simpa [Member.isTame, hasked] using h
    exact isReader_addFunction hreads _ _ _ s
  | getter name op =>
    simp only [Member.isTame, Bool.and_eq_true, Bool.not_eq_true'] at h
    have htame : ∀ (s' : Store) (f : ObjectId), s'.IsReader f →
        Descriptor.IsTame s' (.text name) (.accessor (some f) none false true) :=
      fun s' f hf => ⟨h.1, by rintro _ (⟨⟨⟩⟩ | ⟨⟨⟩⟩); exact hf⟩
    exact (keeps_addFunction _ _ _ _ s).trans
      (Store.buildsTo_define (htame _ _ (isReader_addFunction h.2 _ _ _ s)) id)
  | value name d => exact keeps_put id h s

theorem keeps_addMembers (id : ObjectId) {members : List Member}
    (h : members.all Member.isTame = true) : Keeps (members.forM (addMember id)) :=
  Keeps.forM fun m hm => keeps_addMember id (List.all_eq_true.mp h m hm)

theorem keeps_addConstructor {c : Constructor} (h : c.isTame = true)
    (prototype behind : ObjectId) : Keeps (addConstructor c prototype behind) := by
  simp only [Constructor.isTame, List.all_append, Bool.and_eq_true] at h
  exact (keeps_addFunction _ _ _ _).bind fun id => (keeps_put id rfl).bind fun _ =>
    (keeps_put prototype rfl).bind fun _ => (keeps_addMembers id h.2.1).bind fun _ =>
      (keeps_addMembers prototype h.2.2).bind fun _ => Keeps.pure _

theorem keeps_addGlobal {name : String} (h : (Key.text name).isAsked = false) (id : ObjectId) :
    Keeps (addGlobal name id) :=
  keeps_put globalObject (by rw [h]; rfl)

theorem keeps_addClass {c : Constructor} (h : c.isTame = true) (kind : Kind) :
    Keeps (addClass c kind) := by
  have hname : (Key.text c.name).isAsked = false := by
    simp only [Constructor.isTame, Bool.and_eq_true, Bool.not_eq_true'] at h
    exact h.1
  exact (keeps_addObject _ _).bind fun prototype => (keeps_addConstructor h _ _).bind fun _ =>
    (keeps_addGlobal hname _).bind fun _ => Keeps.pure _

theorem keeps_addNamespace {name : String} (hname : (Key.text name).isAsked = false)
    {members : List Member} (h : members.all Member.isTame = true) :
    Keeps (addNamespace name members) :=
  (keeps_addObject _ _).bind fun id => (keeps_addMembers id h).bind fun _ => keeps_addGlobal hname _

theorem keeps_addErrors : Keeps addErrors := by
  have hparticular : ∀ (kind : ErrorKind) (prototype base : ObjectId), Keeps (do
      let own ← addObject (some prototype) .ordinary
      addGlobal kind.name (← addConstructor (errorConstructor kind) own base)
      return own) := fun kind prototype base =>
    (keeps_addObject _ _).bind fun own =>
      (keeps_addConstructor (by cases kind <;> rfl) _ _).bind fun _ =>
        (keeps_addGlobal (by cases kind <;> rfl) _).bind fun _ => Keeps.pure _
  refine (keeps_addObject _ _).bind fun prototype => ?_
  refine (keeps_addConstructor rfl _ _).bind fun base => (keeps_addGlobal rfl _).bind fun _ => ?_
  refine (keeps_addMember _ rfl).bind fun _ => ?_
  exact (hparticular _ _ _).bind fun _ => (hparticular _ _ _).bind fun _ =>
    (hparticular _ _ _).bind fun _ => (hparticular _ _ _).bind fun _ => Keeps.pure _

/-- **Every step of building the global objects keeps the store tame.** -/
theorem keeps_buildGlobals (iterator : SymbolId) : Keeps (buildGlobals iterator) := by
  have hnamespaces : ∀ n ∈ globalNamespaces,
      (Key.text n.1).isAsked = false ∧ n.2.all Member.isTame = true := by decide
  unfold buildGlobals
  refine (keeps_addObject _ _).bind fun object => (keeps_addObject _ _).bind fun function => ?_
  refine (keeps_addObject _ _).bind fun global => ?_
  refine (keeps_addConstructor rfl _ _).bind fun _ => (keeps_addGlobal rfl _).bind fun _ => ?_
  refine (keeps_addConstructor rfl _ _).bind fun _ => (keeps_addGlobal rfl _).bind fun _ => ?_
  refine (keeps_addObject _ _).bind fun array => (keeps_put _ rfl).bind fun _ => ?_
  refine (keeps_addConstructor rfl _ _).bind fun _ => (keeps_addGlobal rfl _).bind fun _ => ?_
  refine (keeps_addClass rfl _).bind fun map => (keeps_addClass rfl _).bind fun set => ?_
  refine (keeps_addClass rfl _).bind fun symbol => (keeps_addClass rfl _).bind fun date => ?_
  refine (keeps_addClass rfl _).bind fun regexp => keeps_addErrors.bind fun errors => ?_
  refine (keeps_addClass rfl _).bind fun promise => (keeps_addClass rfl _).bind fun buffer => ?_
  refine (keeps_addClass rfl _).bind fun bytes => (keeps_addClass rfl _).bind fun number => ?_
  refine (keeps_addClass rfl _).bind fun string => (keeps_addClass rfl _).bind fun boolean => ?_
  refine (keeps_addClass rfl _).bind fun bigint => ?_
  refine Keeps.bind (Keeps.forIn (fun n hn _ => ?_) _) fun _ => ?_
  · obtain ⟨hname, hmembers⟩ := hnamespaces n hn
    exact (keeps_addNamespace hname hmembers).bind fun _ => Keeps.pure _
  refine (keeps_addGlobal rfl _).bind fun _ => (keeps_addNamespace rfl rfl).bind fun _ => ?_
  exact (keeps_put _ rfl).bind fun _ => (keeps_put _ rfl).bind fun _ =>
    (keeps_put _ rfl).bind fun _ => Keeps.pure _

end Build

/-- **A fresh realm is tame**, however it is configured. -/
theorem isTame_fresh (config : Config) : (Realm.fresh config).store.IsTame := by
  have hempty : Store.IsTame {} := fun id o ho => by
    rw [Store.get_eq_ok_iff] at ho
    simp at ho
  unfold Realm.fresh
  split
  next iterator symbols _ =>
    split
    next known store hbuild =>
      have htame := (Build.keeps_buildGlobals iterator {}).tame hempty
      rw [hbuild] at htame
      exact htame

end Stasis
