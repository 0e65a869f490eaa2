import Mathlib
import Stasis.Proofs.Adds.Globals
import Stasis.Proofs.Adds.Path
import Stasis.Proofs.Adds.Suspend

/-!
# Following paths only adds

Paths come from envelopes, and an envelope may hold any text for a path. Whatever is asked of a new
realm by such texts, nothing that was there changes: what is not an access path is refused, and what
an access path calls only reads.

* `Base.tameMachine_perform`: requests of paths only add, however deep they go.
* `isTame_start`: a new realm is tame.
* `Realm.OnlyAdds`: a realm with more objects and more symbols.
* `onlyAdds_follow`: the realm after any texts have been followed as paths.
-/

namespace Stasis

namespace Base

variable {b : Base}

/-! ## Calls -/

theorem gives_behaviorOf? {f : Value} (h : b.IsHarmless f) :
    b.Gives (behaviorOf? f) fun found => ∀ id behavior, found = some (id, behavior) →
      ∃ op slot, behavior = .native op slot ∧ op.isReader = true := by
  unfold behaviorOf?
  split
  · next id =>
    obtain ⟨o, ho, hreads⟩ := h id rfl
    have hkind : b.Gives (kindOf id) fun kind => kind = o.kind := by
      refine (gives_objectAt id).bind fun o' ho' => Gives.pure ?_
      obtain ho' | ⟨hid, -⟩ := ho'
      · rw [Except.ok.inj (ho'.symm.trans ho)]
      · exact absurd (Store.lt_size_of_get ho) (not_lt_of_ge hid)
    refine hkind.bind fun kind hkind => ?_
    split
    · refine Gives.pure ?_
      rintro _ _ ⟨⟩
      exact hreads _ hkind.symm
    · exact Gives.pure fun _ _ hnone => by cases hnone
  · exact Gives.pure fun _ _ hnone => by cases hnone

/-- Calling what only reads only adds. -/
theorem adds_callValue [Machine] [TameMachine b] {f : Value} (h : b.IsHarmless f) (this : Value)
    (args : List Value) : b.Adds (callValue f this args) := by
  refine (gives_behaviorOf? h).bind_adds fun found hfound => ?_
  split
  · exact (adds_display f).bind fun _ => adds_throwType _
  · obtain ⟨op, slot, rfl, hreads⟩ := hfound _ _ rfl
    exact (adds_applyNative hreads _).nested

/-! ## The engine -/

/-- **The requests of paths only add**, however deep requests go inside each other. -/
theorem tameMachine_perform (b : Base) (depth : ℕ) :
    ∀ rounds : ℕ, @TameMachine b ⟨rounds, fun request => perform depth request⟩ := by
  induction depth with
  | zero =>
    exact fun rounds => @TameMachine.mk b ⟨rounds, fun request => perform 0 request⟩
      (fun _ _ _ _ => adds_throw _) (fun _ _ _ _ => adds_throw _) fun _ _ _ _ => adds_throw _
  | succ depth ih =>
    -- what a request asks for in turn has one level less
    let inner : Machine := ⟨depth, fun request => perform depth request⟩
    have hinner : TameMachine b := ih depth
    exact fun rounds => @TameMachine.mk b ⟨rounds, fun request => perform (depth + 1) request⟩
      (fun e name env he => adds_evalExpr he name env)
      (fun f this args hf => adds_callValue hf this args)
      fun hb pass v path => adds_suspendValue hb pass v path

instance tameMachine_engine (b : Base) (depth : ℕ) : @TameMachine b (engine depth) :=
  tameMachine_perform b depth depth

/-! ## A new realm -/

/-- A tame realm without registrations, in which paths may be recorded. -/
def recording (r : Realm) (tame : r.store.IsTame) (unregistered : r.registry = {}) : Base :=
  ⟨r, tame, true, fun _ => unregistered⟩

/-- A tame realm, to which only objects and symbols may be added. -/
def still (r : Realm) (tame : r.store.IsTame) : Base := ⟨r, tame, false, nofun⟩

section Paths

variable [Machine] [TameMachine b]

theorem adds_recordGlobals (hb : b.noting = true) : b.Adds recordGlobals := by
  refine adds_get.bind fun r => ?_
  split
  · exact (adds_registerHostRoot hb _ _).bind fun _ => Adds.pure _
  · exact Adds.pure _

/-- Any text is followed as a path so that this only adds. -/
theorem adds_resolvePath (path : String) : b.Adds (resolvePath path) := by
  unfold resolvePath
  split
  · exact adds_raise _
  · next e _ =>
    cases he : isAccessPath e with
    | true => exact adds_get.bind fun r => adds_eval he r.scriptEnv
    | false =>
      -- what is refused is not evaluated
      have hrefuse : ∀ detail, b.Gives (refuse detail : Run Unit) fun _ => False :=
        fun _ => gives_throw _ _
      exact (hrefuse _).bind fun _ => False.elim

theorem adds_resolveTagged (session : SessionId) (path : String) :
    b.Adds (resolveTagged session (.hostObject path)) :=
  adds_resolvePath path

end Paths

end Base

theorem registry_fresh (config : Config) : (Realm.fresh config).registry = {} := by
  unfold Realm.fresh
  split
  split
  rfl

/-- **A new realm is tame**, also where the paths of global objects are recorded in it. -/
theorem isTame_start {config : Config} {r : Realm} {fuel : ℕ}
    (h : @Realm.start (engine fuel) config = .ok r) : r.store.IsTame := by
  have hrecord : ∀ (r₀ : Realm) (_ : r₀.store.IsTame) (_ : r₀.registry = {}) (u : Unit) (r' : Realm),
      r₀.run (@recordGlobals (engine fuel)) = (.ok u, r') → r'.store.IsTame := by
    intro r₀ htame hregistry u r' hrun
    let base := Base.recording r₀ htame hregistry
    exact (@Base.adds_recordGlobals base (engine fuel) _ rfl _ _ _ (Base.over_self base) hrun).1.tame
  unfold Realm.start at h
  split at h
  · next hrun =>
    cases h
    exact hrecord _ (isTame_fresh config) (registry_fresh config) _ _ hrun
  · cases h

/-- A realm in which no paths are recorded is started as it is. -/
theorem start_of_not_registering {config : Config} {fuel : ℕ}
    (h : config.registerGlobalRoot = false) :
    @Realm.start (engine fuel) config = .ok (Realm.fresh config) := by
  have hrecord : ∀ r₀ : Realm, r₀.config.registerGlobalRoot = false →
      r₀.run (@recordGlobals (engine fuel)) = (.ok (), r₀) := by
    intro r₀ hr₀
    have hget : r₀.run get = (.ok r₀, r₀) := rfl
    unfold recordGlobals
    rw [run_bind, hget]
    dsimp only
    rw [if_neg (by rw [hr₀]; nofun)]
    rfl
  have hconfig : (Realm.fresh config).config = config := by
    unfold Realm.fresh
    split
    split
    rfl
  unfold Realm.start
  rw [hrecord _ (by rw [hconfig, h])]

/-! ## Following paths -/

/-- The second realm is the first one with more objects and more symbols. Those that were there are as
they were, and nothing else has changed: no variable, no registration, no recorded path. Only where
the bound on the work was too low are there calls that have not returned. -/
structure Realm.OnlyAdds (r r' : Realm) : Prop where
  objects : ∀ id o, r.store.get id = .ok o → r'.store.get id = .ok o
  descriptions : ∀ (id : SymbolId) (d : Option String),
    r.symbols.descriptions[id]? = some d → r'.symbols.descriptions[id]? = some d
  shared : ∀ key id, r.symbols.byKey.find? key = some id → r'.symbols.byKey.find? key = some id
  rest : r' = { r with store := r'.store, symbols := r'.symbols, depth := r'.depth }

/-- Follows texts as paths, one after another, and leaves the realm that the last one has left. -/
def Realm.follow (depth : ℕ) (session : SessionId) (r : Realm) (paths : List String) : Realm :=
  paths.foldl
    (fun r path => (r.run (@resolveTagged (engine depth) session (.hostObject path))).2) r

section Following

variable {r r' : Realm} {config : Config} {fuel : ℕ} {htame : r.store.IsTame}

/-- What is over a realm to which only objects and symbols may be added has only these added. -/
theorem Base.Over.onlyAdds (h : (Base.still r htame).Over r') : r.OnlyAdds r' where
  objects := h.objects
  descriptions := h.descriptions
  shared := h.shared
  rest := by
    obtain ⟨hpaths, hreferences, hevents⟩ := h.noted rfl
    rw [h.rest, hpaths, hreferences, hevents]
    rfl

theorem Base.Over.follow {b : Base} (depth : ℕ) (session : SessionId) (paths : List String) :
    ∀ r, b.Over r → b.Over (r.follow depth session paths) := by
  induction paths with
  | nil => exact fun _ hr => hr
  | cons path paths ih =>
    have hpath := @adds_resolveTagged b (engine depth) _ session path
    exact fun r hr => ih _ (hpath.over hr)

/-- **Paths cannot change anything.** Take a new realm, however it is configured, and any texts, one
after another, as the paths of objects of the host. Some are followed to their end and some fail. At
every moment between them, what was there is as it was and stays so, whatever texts come next: only
objects and symbols are added. No call is left running, unless the bound on the work was too low. -/
theorem onlyAdds_follow (h : @Realm.start (engine fuel) config = .ok r) (depth : ℕ)
    (session : SessionId) (before after : List String) :
    (r.follow depth session before).OnlyAdds (r.follow depth session (before ++ after)) ∧
      ∀ path out r', (r.follow depth session before).run
          (@resolveTagged (engine depth) session (.hostObject path)) = (out, r') →
        out ≠ .error .outOfFuel → r'.depth = (r.follow depth session before).depth := by
  have hbefore := (Base.over_self (.still r (isTame_start h))).follow depth session before
  -- the realm after the first texts is tame again, and the next ones are followed from there
  have hself := Base.over_self (.still _ hbefore.tame)
  refine ⟨?_, fun path out r' hrun hne => ?_⟩
  · have hafter := (hself.follow depth session after).onlyAdds
    rwa [Realm.follow, Realm.follow, List.foldl_append]
  · exact (@Base.adds_resolveTagged _ (engine depth) _ session path _ out r' hself hrun).2.1 hne

/-- A text that is a path, followed by one that would change what objects are made with. -/
theorem onlyAdds_follow_fresh : ∃ r, @Realm.start (engine 0) { registerGlobalRoot := false } = .ok r ∧
    (r.follow 16 0 ["[...\"ab\"]"]).OnlyAdds
      (r.follow 16 0 (["[...\"ab\"]"] ++ ["Object.setPrototypeOf(Array.prototype, null)"])) := by
  have hstart := @start_of_not_registering { registerGlobalRoot := false } 0 rfl
  exact ⟨_, hstart, (onlyAdds_follow hstart 16 0 _ _).1⟩

end Following

end Stasis
