import Mathlib
import Stasis.Proofs.OpenSessions

/-!
# The depth of calls

A realm counts the calls that are running and refuses one that would go too deep. However a call ends,
with a value or with a failure that something further out may catch, it is taken out of the count
again. So the count stays below its limit at every moment, and every operation leaves room for as many
calls as it found.

* `run_nested`, `history_nested`: what a call does to the count, and that it is counted while it runs.
* `Realm.Accepts`, `Realm.accepts_iff`: how many calls there is room for.
* `Realm.IsWithin`, `Steady.isWithin`: no step raises the count above the limit.
* `calls_balanced`: whatever a realm is asked for, the count is balanced and bounded.
-/

namespace Stasis

variable {α : Type} {r r' : Realm}

/-! ## Room for calls -/

/-- **A call is refused, or raises the count by one until it ends**, however it ends. -/
theorem run_nested (x : Run α) (r : Realm) : r.run (nested x) =
    if r.config.maxCallDepth ≤ r.depth then
      (.error (.error (.callDepth r.config.maxCallDepth)), r)
    else match { r with depth := r.depth + 1 }.run x with
      | (.error .outOfFuel, r') => (.error .outOfFuel, r')
      | (out, r') => (out, { r' with depth := r'.depth - 1 }) := by
  unfold nested
  rw [(yields_get r).run_bind, (yields_get r).run_bind]
  split
  · rfl
  · rw [(yields_modify _ r).run_bind, run_bind, run_attempt]
    generalize { r with depth := r.depth + 1 }.run x = ended
    rcases ended with ⟨(_ | _) | _, r'⟩ <;> rfl

/-- **While a call runs it is counted**: its moments are those of an action begun one call deeper. -/
theorem history_nested (x : Run α) (hroom : r.depth < r.config.maxCallDepth) :
    ∃ later, r.history (nested x) = later ++ { r with depth := r.depth + 1 }.moments x := by
  unfold nested
  rw [(yields_get r).history_bind, (yields_get r).history_bind, if_neg (not_le.mpr hroom),
    (yields_modify _ r).history_bind, Realm.history_bind, Realm.history_attempt, Realm.history_modify,
    Realm.history_get, List.append_nil, List.append_nil, List.append_assoc]
  exact ⟨_, rfl⟩

theorem mem_history_nested (x : Run α) (hroom : r.depth < r.config.maxCallDepth) :
    { r with depth := r.depth + 1 } ∈ r.history (nested x) := by
  obtain ⟨later, hlater⟩ := history_nested x hroom
  rw [hlater]
  exact List.mem_append_right _ (List.mem_append_right _ List.mem_cons_self)

/-- **Every function that is called is counted at a moment**, before anything else is done. -/
theorem mem_history_callValue [Machine] {id : ObjectId} (this : Value) (args : List Value)
    (hfunction : r.store.isFunction id = true) (hroom : r.depth < r.config.maxCallDepth) :
    { r with depth := r.depth + 1 } ∈ r.history (callValue (.object id) this args) := by
  obtain ⟨o, ho, hkind⟩ := (Option.any_eq_true _ _).mp hfunction
  obtain ⟨behavior, hbehavior⟩ : ∃ behavior, o.kind = .function behavior := by
    cases h : o.kind with
    | function behavior => exact ⟨behavior, rfl⟩
    | _ => rw [h] at hkind; cases hkind
  have hread : Yields (behaviorOf? (.object id)) r (some (id, behavior)) r := by
    refine (yields_kindOf (Store.get_eq_ok_iff.mpr ho)).bind ?_
    rw [hbehavior]
    exact Yields.pure _ r
  unfold callValue
  rw [hread.history_bind]
  exact List.mem_append_left _ (mem_history_nested _ hroom)

/-- There is room for `n` calls, each inside the one before. -/
def Realm.Accepts (r : Realm) (n : ℕ) : Prop := ∃ r', Yields (nested^[n] (pure ())) r () r'

/-- Calls inside each other all go through, or the one that is too deep fails. Either way none of
them is counted afterwards. -/
theorem run_nested_iterate (n : ℕ) (r : Realm) : r.run (nested^[n] (pure ())) =
    if n = 0 ∨ r.depth + n ≤ r.config.maxCallDepth then (.ok (), r)
    else (.error (.error (.callDepth r.config.maxCallDepth)), r) := by
  induction n generalizing r with
  | zero => rfl
  | succ n ih =>
    rw [Function.iterate_succ_apply', run_nested]
    -- the outermost call is refused, or one of those inside it may be
    by_cases hfull : r.config.maxCallDepth ≤ r.depth
    · rw [if_pos hfull, if_neg (by omega)]
    · rw [if_neg hfull, ih]
      dsimp only
      by_cases hroom : r.depth + (n + 1) ≤ r.config.maxCallDepth
      · rw [if_pos (by omega), if_pos (.inr hroom)]
        rfl
      · rw [if_neg (by omega), if_neg (by omega)]
        rfl

theorem Realm.accepts_iff {n : ℕ} :
    r.Accepts n ↔ n = 0 ∨ r.depth + n ≤ r.config.maxCallDepth := by
  unfold Accepts Yields
  rw [run_nested_iterate]
  split
  · next h => exact iff_of_true ⟨r, rfl⟩ h
  · next h => exact iff_of_false nofun h

/-! ## The limit -/

namespace Realm

theorem Change.config_eq (h : r.Change r') : r'.config = r.config := by
  cases h <;> rfl

theorem Step.config_eq (h : r.Step r') : r'.config = r.config := by
  cases h with
  | change h => exact h.config_eq
  | _ => rfl

/-- The realm runs by the configuration, and its calls are within a bound. -/
structure IsWithin (config : Config) (bound : ℕ) (r : Realm) : Prop where
  config : r.config = config
  depth : r.depth ≤ bound

/-- A step counts a further call only where the limit has not been reached. -/
theorem IsWithin.step {config : Config} {bound : ℕ} (hbound : config.maxCallDepth ≤ bound)
    (h : r.IsWithin config bound) (hstep : r.Step r') : r'.IsWithin config bound := by
  refine ⟨hstep.config_eq.trans h.config, ?_⟩
  cases hstep with
  | change hchange => exact hchange.sameFrame.depth.trans_le h.depth
  | objectType | opened | closed => exact h.depth
  | called hroom => exact (Nat.succ_le_of_lt hroom).trans ((congrArg _ h.config).trans_le hbound)
  | returned hdepth => exact (Nat.le_succ _).trans (hdepth.symm.trans_le h.depth)

end Realm

/-- **At no moment is the count of calls above the limit**, or above what it was before. -/
theorem Steady.isWithin {config : Config} {bound : ℕ} {heaps : List (Table String Entry)} {x : Run α}
    (hbound : config.maxCallDepth ≤ bound) (hx : Steady heaps x) (hr : heaps <+: r.heaps)
    (hbegin : r.IsWithin config bound) : ∀ moment ∈ r.moments x, moment.IsWithin config bound :=
  (hx.moments hr).2.keeps (P := fun h => ∀ moment ∈ h, moment.IsWithin config bound)
    (fun hpast hstep => List.forall_mem_cons.mpr
      ⟨(hpast _ List.mem_cons_self).step hbound hstep, hpast⟩)
    (List.forall_mem_singleton.mpr hbegin)

/-! ## Every operation -/

theorem config_fresh (config : Config) : (Realm.fresh config).config = config := by
  unfold Realm.fresh
  split
  split
  rfl

theorem depth_fresh (config : Config) : (Realm.fresh config).depth = 0 := by
  unfold Realm.fresh
  split
  split
  rfl

theorem isWithin_fresh (config : Config) :
    (Realm.fresh config).IsWithin config config.maxCallDepth :=
  ⟨config_fresh config, (depth_fresh config).trans_le (Nat.zero_le _)⟩

/-- **Whatever a realm is asked for, the calls that have begun end.** The count is never above its limit,
neither while operations are asked for one after another nor while one of them is carried out; after an
operation it is what it was before, whether the operation came to a value or failed, and there is room
for the same calls. -/
theorem calls_balanced (config : Config) (operations : List (ℕ × (α : Type) × Operation α)) :
    (∀ moment ∈ (Realm.fresh config).moments (drive operations),
      moment.depth ≤ config.maxCallDepth) ∧
    ∀ (fuel : ℕ) (α : Type) (operation : Operation α) (r : Realm), ∃ out r',
      r.run (@Operation.perform (engine fuel) _ operation) = (out, r') ∧
      (∀ moment ∈ r.moments (@Operation.perform (engine fuel) _ operation),
        moment.depth ≤ max r.depth r.config.maxCallDepth) ∧
      (out = .error .outOfFuel ∨ (r'.depth = r.depth ∧ ∀ n, r'.Accepts n ↔ r.Accepts n)) := by
  refine ⟨fun moment hm => ?_, fun fuel α operation r => ?_⟩
  · have hsteady : Steady [] (drive operations) := steady_drive operations []
    exact (hsteady.isWithin le_rfl List.nil_prefix (isWithin_fresh config) moment hm).depth
  · have hsteady := steady_perform fuel operation r.heaps
    have hwithin := hsteady.isWithin (le_max_right r.depth _) List.prefix_rfl ⟨rfl, le_max_left ..⟩
    obtain ⟨out, r', later, hpass, hframe⟩ := hsteady r [] List.prefix_rfl
    obtain ⟨_, ⟨⟩, hrun⟩ := hpass.run_eq rfl
    refine ⟨out, r', hrun, fun moment hm => (hwithin moment hm).depth, ?_⟩
    by_cases hfuel : out = .error .outOfFuel
    · exact .inl hfuel
    · have hdepth := (hframe hfuel).depth
      have hlast : r' ∈ r.moments (@Operation.perform (engine fuel) _ operation) := by
        rw [hpass.moments_eq]
        exact List.mem_cons_self
      refine .inr ⟨hdepth, fun n => ?_⟩
      rw [Realm.accepts_iff, Realm.accepts_iff, hdepth, (hwithin r' hlast).config]

/-- A new realm that has room for one call is asked for a call of one of its functions: at one of the
moments it has reached its limit. -/
theorem calls_balanced_oneCall : ∃ moment ∈ (Realm.fresh { maxCallDepth := 1 }).moments
    (drive [(1, ⟨_, .request (.call (.object 1) .undefined [])⟩)]),
    moment.depth = 1 ∧ moment.depth ≤ 1 := by
  have hdepth := depth_fresh { maxCallDepth := 1 }
  have hroom : (Realm.fresh { maxCallDepth := 1 }).depth <
      (Realm.fresh { maxCallDepth := 1 }).config.maxCallDepth := by
    rw [hdepth, config_fresh]
    exact Nat.one_pos
  have hfunction : (Realm.fresh { maxCallDepth := 1 }).store.isFunction 1 = true := by
    decide +kernel
  generalize hr : Realm.fresh { maxCallDepth := 1 } = r at hdepth hroom hfunction ⊢
  have hmoment : { r with depth := r.depth + 1 } ∈ r.moments (drive
      [(1, ⟨_, .request (.call (.object 1) .undefined [])⟩)]) := by
    rw [Realm.moments, drive, Realm.history_bind, Realm.history_attempt]
    refine List.mem_append_left _ (List.mem_append_right _ ?_)
    exact @mem_history_callValue r (engine 0) 1 .undefined [] hfunction hroom
  refine ⟨_, hmoment, congrArg (· + 1) hdepth, ?_⟩
  subst hr
  exact (calls_balanced { maxCallDepth := 1 } _).1 _ hmoment

end Stasis
