import Mathlib
import Stasis.Proofs.Given
import Stasis.Proofs.OpenSessions

/-!
# What a failed registration leaves behind

The walk from a root of the host notes the path of each object when it comes to it, before it looks at
what is behind. No step of a run takes a path back, and nothing does so where the walk fails. So a
registration that fails has noted paths: at least that of its root.

* `HostPaths.pathOf?_record`: an object keeps the first path that is noted for it.
* `Realm.Step.pathOf?`, `pathOf?_perform`: paths stay, step by step, whatever a realm is asked for.
* `pathOf?_suspendObject`: an object has its path from the beginning of the walk through it.
* `exists_pathOf?_of_raises`: a registration that fails leaves the path of its root.
* `yields_registerHostRoot_again`: nothing more comes of registering this root again.
-/

namespace Stasis

variable {α : Type} {r r' : Realm} {id : ObjectId}

/-! ## Paths stay -/

theorem HostPaths.pathOf?_record (h : HostPaths) (id id' : ObjectId) (path : String) :
    (h.record id path).1.pathOf? id' =
      if id = id' then some ((h.pathOf? id).getD path) else h.pathOf? id' := by
  have hinsert : (h.record id path).1.paths = h.paths.insertNew id path := by
    unfold record Table.insertNew
    split <;> rfl
  rw [pathOf?, hinsert, Table.find?_insertNew]
  rfl

theorem Realm.Step.pathOf? {path : String} (hstep : r.Step r')
    (h : r.hostPaths.pathOf? id = some path) : r'.hostPaths.pathOf? id = some path := by
  cases hstep with
  | change hchange =>
    cases hchange with
    | path id' path' =>
      rw [HostPaths.pathOf?_record]
      split
      · next hsame => rw [hsame, h, Option.getD_some]
      · exact h
    | _ => exact h
  | _ => exact h

theorem Steady.pathOf? {x : Run α} {out : Except Fault α} {path : String} (hx : Steady [] x)
    (hrun : r.run x = (out, r')) (h : r.hostPaths.pathOf? id = some path) :
    r'.hostPaths.pathOf? id = some path :=
  hx.last (P := fun now => now.hostPaths.pathOf? id = some path)
    (fun hnow hstep => hstep.pathOf? hnow) hrun h

/-- **Nothing that a realm is asked for takes a path back.** -/
theorem pathOf?_perform {fuel : ℕ} {operation : Operation α} {out : Except Fault α} {path : String}
    (hrun : r.run (@Operation.perform (engine fuel) _ operation) = (out, r'))
    (h : r.hostPaths.pathOf? id = some path) : r'.hostPaths.pathOf? id = some path :=
  (steady_perform fuel operation []).pathOf? hrun h

/-! ## Registrations that fail -/

section Machine

variable [Machine] [SafeMachine] {pass : Pass} {path : String} {o : Object}

/-- **An object has its path from the beginning of the walk through it**, however the walk ends. -/
theorem pathOf?_suspendObject {out : Except Fault (Tagged × Pass)}
    (hget : r.store.get id = .ok o) (hnew : r.hostPaths.pathOf? id = none)
    (hnode : (pass.stop && o.kind.isScripted) = false)
    (hrun : r.run ((suspendObject id (some path)).run pass) = (out, r')) :
    r'.hostPaths.pathOf? id = some path := by
  have hrecord : Yields (recordPath id path) r () _ := yields_modify _ r
  unfold suspendObject at hrun
  rw [((yields_realm r).walk pass).run_bind] at hrun
  simp only [hnew] at hrun
  rw [(walkYields_get r pass).run_bind, ((yields_kindOf hget).walk pass).run_bind, hnode,
    if_neg Bool.false_ne_true, (hrecord.walk pass).run_bind] at hrun
  -- whatever comes after the record is made of steps, and no step takes a path back
  have hrest : Explores [] _ _ := explores_referenceFor id (some path)
  refine (hrest.steady pass []).pathOf? hrun ?_
  rw [HostPaths.pathOf?_record, if_pos rfl, hnew, Option.getD_none]

omit [SafeMachine] in
/-- An object that has a path goes by it. -/
theorem walkYields_suspendObject {known : String} {path : Option String}
    (h : r.hostPaths.pathOf? id = some known) :
    WalkYields (suspendObject id path) r pass (.hostObject known) r pass := by
  refine WalkYields.bind ((yields_realm r).walk pass) ?_
  rw [h]
  exact WalkYields.pure _ _ _

omit [SafeMachine] in
/-- A walk that stops leaves out functions of scripts. -/
theorem walkYields_suspendObject_omitted {path : Option String} (hget : r.store.get id = .ok o)
    (hnew : r.hostPaths.pathOf? id = none) (hnode : (pass.stop && o.kind.isScripted) = true) :
    WalkYields (suspendObject id path) r pass .omitted r pass := by
  refine WalkYields.bind ((yields_realm r).walk pass) ?_
  rw [hnew]
  refine (walkYields_get r pass).bind (((yields_kindOf hget).walk pass).bind ?_)
  rw [if_pos hnode]
  exact WalkYields.pure _ _ _

omit [Machine] [SafeMachine] in
theorem exists_yields_taggedSymbol (id : SymbolId) (r : Realm) :
    ∃ t r₁, Yields (taggedSymbol id) r t r₁ := by
  cases hkey : r.symbols.keyFor? id with
  | some key =>
    refine ⟨.sharedSymbol key, r, (yields_get r).bind ?_⟩
    rw [hkey]
    exact Yields.pure _ r
  | none =>
    refine ⟨.ownSymbol (r.references.ofSymbol id).1 (r.symbols.description? id),
      { r with references := (r.references.ofSymbol id).2 }, (yields_get r).bind ?_⟩
    rw [hkey]
    exact (yields_set r _).bind (Yields.pure _ _)

omit [SafeMachine] in
/-- A value is written without a walk, or it is an object that the walk goes through. -/
theorem walkYields_taggedValue_or (v : Value) (pass : Pass) (path : Option String)
    (hv : ∀ id, v = .object id → ∃ o, r.store.get id = .ok o) :
    (∃ t r₁, WalkYields (taggedValue v path) r pass t r₁ pass) ∨
      ∃ id o, v = .object id ∧ r.store.get id = .ok o ∧ r.hostPaths.pathOf? id = none ∧
        (pass.stop && o.kind.isScripted) = false := by
  cases v with
  | object id =>
    obtain ⟨o, hget⟩ := hv id rfl
    cases hpath : r.hostPaths.pathOf? id with
    | some known => exact .inl ⟨.hostObject known, r, walkYields_suspendObject hpath⟩
    | none =>
      cases hnode : pass.stop && o.kind.isScripted with
      | false => exact .inr ⟨id, o, rfl, hget, hpath, hnode⟩
      | true => exact .inl ⟨.omitted, r, walkYields_suspendObject_omitted hget hpath hnode⟩
  | symbol id =>
    obtain ⟨t, r₁, h⟩ := exists_yields_taggedSymbol id r
    exact .inl ⟨t, r₁, h.walk pass⟩
  | _ => exact .inl ⟨_, r, WalkYields.pure _ _ _⟩

omit [SafeMachine] in
/-- Where a walk fails, nothing has happened since the last object that it came to. -/
theorem Raises.of_walkFrom {known : Table String Entry} {stop : Bool} {v : Value}
    {path : Option String} {cause : EngineError}
    (h : Raises (walkFrom known stop v path) r cause r') :
    ∃ out, r.run (suspendAt { entries := known.map some, stop } v path) = (out, r') := by
  unfold walkFrom at h
  rcases raises_bind_iff.mp h with hraise | ⟨⟨t, p⟩, r₁, hyield, hrest⟩
  · exact ⟨_, hraise⟩
  · dsimp only at hrest
    cases hfinished : finishedEntries p.entries.entries with
    | ok entries =>
      rw [hfinished] at hrest
      cases hrest
    | error cause' =>
      rw [hfinished] at hrest
      cases hrest
      exact ⟨_, hyield⟩

end Machine

/-- **A registration that fails leaves the path of its root behind**, which had none before. -/
theorem exists_pathOf?_of_raises {fuel : ℕ} {v : Value} {path : String} {cause : EngineError}
    (hv : ∀ id, v = .object id → ∃ o, r.store.get id = .ok o)
    (h : Raises (@registerHostRoot (engine fuel) v path) r cause r') :
    ∃ id, v = .object id ∧ r.hostPaths.pathOf? id = none ∧ r'.hostPaths.pathOf? id = some path := by
  unfold registerHostRoot at h
  obtain ⟨_, _, hget, h⟩ := (raises_bind_iff.mp h).resolve_left nofun
  cases hget
  obtain ⟨r₁, events, hbody, rfl⟩ := Raises.of_noted
    (fun outcome r => by cases outcome <;> exact ⟨_, Yields.pure _ r⟩) h
  have hwalk := (raises_bind_iff.mp hbody).resolve_right fun ⟨_, _, _, hrest⟩ => nomatch hrest
  cases fuel with
  | zero =>
    -- without fuel nothing is suspended, and nothing is raised
    cases (raises_bind_iff.mp hwalk).resolve_right fun ⟨_, _, hnone, _⟩ => nomatch hnone
  | succ fuel =>
    let _ := engine fuel
    let pass : Pass := { entries := (∅ : Table String Entry).map some, stop := true }
    rcases walkYields_taggedValue_or v pass (some path) hv with
      ⟨t, r₂, hyield⟩ | ⟨id, o, rfl, hget, hnew, hnode⟩
    · -- a root that is not walked through is written at once
      have hdone : Yields (@walkFrom (engine (fuel + 1)) {} true v (some path)) r _ r₂ :=
        Yields.bind hyield ((yields_ofExcept [] r₂).bind (Yields.pure _ r₂))
      exact absurd hwalk hdone.not_raises
    · obtain ⟨out, hrun⟩ := @Raises.of_walkFrom _ _ (engine (fuel + 1)) _ _ _ _ _ hwalk
      have hpath : r₁.hostPaths.pathOf? id = some path :=
        pathOf?_suspendObject hget hnew hnode hrun
      exact ⟨id, rfl, hnew, hpath⟩

/-- The walk comes to an error whose message cannot be read after it has been to another object. -/
example :
    let r : Realm := .small #[
      { prototype := none, kind := .ordinary
        properties := Table.ofList [
          (.text "inner", .plain (.object 2)), (.text "bad", .plain (.object 3))] },
      { prototype := none, kind := .ordinary },
      { prototype := none, kind := .ordinary },
      { prototype := none, kind := .error
        properties := Table.ofList [(.text "message", .accessor (some 4) none false true)] },
      { prototype := none, kind := .function (.native (.symbol .keyFor) none) }] 1
    let ended := r.run (@registerHostRoot (engine 5) (.object 0) "root")
    (ended.1 matches .error (.error _)) ∧ ended.2.hostPaths.pathOf? 0 = some "root"
      ∧ ended.2.hostPaths.pathOf? 2 = some "root[\"inner\"]" := by
  decide +kernel

/-- A root that has a path is registered at once, and nothing behind it is looked at. -/
theorem yields_registerHostRoot {fuel : ℕ} {known path : String}
    (h : r.hostPaths.pathOf? id = some known) :
    ∃ events, Yields (@registerHostRoot (engine (fuel + 1)) (.object id) path) r 0
      { r with events } := by
  let _ := engine fuel
  let pass : Pass := { entries := (∅ : Table String Entry).map some, stop := true }
  have hsuspend : Yields ((suspendObject id (some path)).run pass) r (.hostObject known, pass) r :=
    walkYields_suspendObject h
  have hwalk : Yields (@walkFrom (engine (fuel + 1)) {} true (.object id) (some path)) r
      { entries := {}, root := .hostObject known } r :=
    Yields.bind hsuspend ((yields_ofExcept [] r).bind (Yields.pure _ r))
  refine ⟨_, (yields_get r).bind (Yields.noted (hwalk.bind ((yields_get r).bind ?_))
    (Yields.pure _ r))⟩
  rw [Nat.sub_self]
  exact Yields.pure 0 r

/-- **What a failed registration has left undone stays undone.** Registered again, under whatever path,
its root is taken for one that has been registered, and not one object gets a path. -/
theorem yields_registerHostRoot_again {fuel : ℕ} {v : Value} {path : String} {cause : EngineError}
    (hv : ∀ id, v = .object id → ∃ o, r.store.get id = .ok o)
    (h : Raises (@registerHostRoot (engine fuel) v path) r cause r') (fuel' : ℕ) (path' : String) :
    ∃ events, Yields (@registerHostRoot (engine (fuel' + 1)) v path') r' 0 { r' with events } := by
  obtain ⟨id, rfl, -, hpath⟩ := exists_pathOf?_of_raises hv h
  exact yields_registerHostRoot hpath

end Stasis
