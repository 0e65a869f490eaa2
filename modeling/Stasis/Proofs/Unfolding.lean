import Mathlib
import Stasis.Proofs.Making
import Stasis.Realm.Display

/-!
# Values that can be shown

A list or an object inside itself is not shown again, and none is shown inside of three others. But a wrapper
and a settled promise are shown by what they hold: neither are they among the objects that are being shown,
nor do they stop at any depth. So the objects that cannot be shown are those from which nothing but
promises and wrappers leads back to them, and errors without a text.

* `Realm.Unfolds`: an object is shown by another one that it holds.
* `Realm.isSome_showFrom?`: the steps that suffice where no object leads back to itself.
* `Realm.showFrom?_of_cycle`: where one does, no number of steps suffices.
* `Realm.shows_iff`: when all values can be shown.
* `yields_linkPayload_self`: a promise that cannot be shown may come from an entry.
-/

namespace Stasis

/-- The value that an object is shown by: what a wrapper or a settled promise holds. -/
def Kind.held? : Kind → Option Value
  | .wrapper value | .promise (.fulfilled value) | .promise (.rejected value) => some value
  | _ => none

theorem Kind.held?_eq_some_iff {kind : Kind} {v : Value} : kind.held? = some v ↔
    kind = .wrapper v ∨ kind = .promise (.fulfilled v) ∨ kind = .promise (.rejected v) := by
  cases kind with
  | promise state => cases state <;> simp [held?]
  | _ => simp [held?]

theorem isSome_bind {α β : Type} {x : Option α} {f : α → Option β} (hx : x.isSome)
    (hf : ∀ a, (f a).isSome) : (x >>= f).isSome := by
  obtain ⟨a, rfl⟩ := Option.isSome_iff_exists.mp hx
  exact hf a

theorem isSome_mapM {α β : Type} {f : α → Option β} {xs : List α} (h : ∀ x ∈ xs, (f x).isSome) :
    (xs.mapM f).isSome := by
  induction xs with
  | nil => rfl
  | cons x xs ih =>
    obtain ⟨hx, hxs⟩ := List.forall_mem_cons.mp h
    rw [List.mapM_cons]
    exact isSome_bind hx fun _ => isSome_bind (ih hxs) fun _ => rfl

namespace Realm

variable {r : Realm} {steps depth : ℕ} {seen trail : List ObjectId} {top : Bool} {id k : ObjectId}
  {o : Object} {v : Value}

/-- The first object is shown by the second one, which it holds. -/
def Unfolds (r : Realm) (id k : ObjectId) : Prop :=
  ∃ o, r.store.get id = .ok o ∧ o.kind.held? = some (.object k)

/-- Every error has a text to be shown by. -/
def NamesErrors (r : Realm) : Prop :=
  ∀ id o, r.store.get id = .ok o → o.kind = .error → (r.errorLine? id).isSome

/-! ## Values that are shown -/

/-- **One object is shown** if what it holds is shown, at its own depth or one deeper, and what is inside of
it, unless it is too deep. -/
theorem isSome_showFrom?_succ (hget : r.store.get id = .ok o)
    (herror : o.kind = .error → (r.errorLine? id).isSome)
    (hheld : ∀ value, o.kind.held? = some value → ∀ depth', depth ≤ depth' →
      (r.showFrom? steps depth' seen false value).isSome)
    (hinner : depth ≤ 2 → ∀ value, (r.showFrom? steps (depth + 1) (id :: seen) false value).isSome) :
    (r.showFrom? (steps + 1) depth seen top (.object id)).isSome := by
  simp only [showFrom?, hget]
  split
  · rfl
  cases hkind : o.kind with
  | function f => cases f <;> rfl
  | error => exact herror hkind
  | date | regexp => rfl
  | wrapper value =>
    exact isSome_bind (hheld value (by rw [hkind]; rfl) depth le_rfl) fun _ => rfl
  | promise state =>
    cases state with
    | pending => rfl
    | fulfilled value | rejected value =>
      exact isSome_bind (hheld value (by rw [hkind]; rfl) (depth + 1) (Nat.le_succ depth)) fun _ => rfl
  | array =>
    simp only
    split
    · rfl
    · next hdepth =>
      refine isSome_bind (isSome_mapM fun i _ => ?_) fun _ => rfl
      split
      · exact hinner (not_lt.mp hdepth) _
      · rfl
  | map entries =>
    simp only
    split
    · rfl
    · next hdepth =>
      have hvalue := hinner (not_lt.mp hdepth)
      exact isSome_bind (isSome_mapM fun p _ => isSome_bind (hvalue p.1.toValue) fun _ =>
        isSome_bind (hvalue p.2) fun _ => rfl) fun _ => rfl
  | set elements =>
    simp only
    split
    · rfl
    · next hdepth =>
      exact isSome_bind (isSome_mapM fun key _ => hinner (not_lt.mp hdepth) key.toValue) fun _ => rfl
  | ordinary | buffer | bytes =>
    simp only
    split
    · rfl
    · next hdepth =>
      refine isSome_bind (isSome_mapM fun p _ => ?_) fun _ => ?_
      · split
        · exact isSome_bind (hinner (not_lt.mp hdepth) _) fun _ => rfl
        · rfl
      · split <;> rfl

/-- The steps in which a value can be shown at a depth, behind objects that are shown by it. There are as many
objects as there are in the store before one comes again, and three lists or objects inside each other. -/
def stepsAt (r : Realm) (depth : ℕ) (trail : List ObjectId) : ℕ :=
  (3 - depth) * (r.store.size + 2) + (r.store.size + 1 - trail.length)

/-- The objects of the store that lead to a value by what they hold, each of them once. -/
structure LeadsTo (r : Realm) (trail : List ObjectId) (v : Value) : Prop where
  nodup : trail.Nodup
  lt_size : ∀ t ∈ trail, t < r.store.size
  unfolds : ∀ k, v = .object k → ∀ t ∈ trail, Relation.TransGen r.Unfolds t k

theorem leadsTo_nil : r.LeadsTo [] v := ⟨.nil, nofun, fun _ _ => nofun⟩

/-- An object that does not lead back to itself is new. -/
theorem LeadsTo.notMem (h : r.LeadsTo trail (.object id)) (hcycle : ¬ Relation.TransGen r.Unfolds id id) :
    id ∉ trail :=
  fun hmem => hcycle (h.unfolds id rfl id hmem)

theorem LeadsTo.cons (h : r.LeadsTo trail (.object id)) (hcycle : ¬ Relation.TransGen r.Unfolds id id)
    (hget : r.store.get id = .ok o) (hheld : o.kind.held? = some v) : r.LeadsTo (id :: trail) v where
  nodup := List.nodup_cons.mpr ⟨h.notMem hcycle, h.nodup⟩
  lt_size := List.forall_mem_cons.mpr ⟨Store.lt_size_of_get hget, h.lt_size⟩
  unfolds := by
    rintro k rfl
    have hnext : r.Unfolds id k := ⟨o, hget, hheld⟩
    exact List.forall_mem_cons.mpr ⟨.single hnext, fun t ht => (h.unfolds id rfl t ht).tail hnext⟩

theorem LeadsTo.length_le (h : r.LeadsTo trail v) : trail.length ≤ r.store.size := by
  have hsub : trail ⊆ List.range r.store.size := fun t ht => List.mem_range.mpr (h.lt_size t ht)
  simpa using (List.subperm_of_subset h.nodup hsub).length_le

/-- **The steps suffice where no object leads back to itself.** By induction on the steps: the trail of
objects grows, or a list or an object is entered and it begins anew. -/
theorem isSome_showFrom? (hcycle : ∀ id, ¬ Relation.TransGen r.Unfolds id id) (herrors : r.NamesErrors)
    (htrail : r.LeadsTo trail v) (hsteps : r.stepsAt depth trail < steps) :
    (r.showFrom? steps depth seen top v).isSome := by
  induction steps generalizing depth seen top v trail with
  | zero => exact absurd hsteps (Nat.not_lt_zero _)
  | succ steps ih =>
    cases v with
    | object id =>
      cases hget : r.store.get id with
      | error e =>
        simp only [showFrom?, hget]
        split <;> rfl
      | ok o =>
        have hlength := htrail.length_le
        refine isSome_showFrom?_succ hget (herrors id o hget) (fun value hheld depth' hle => ?_)
          fun hdepth value => ?_
        · have hmore := htrail.cons (hcycle id) hget hheld
          have hlonger := hmore.length_le
          refine ih hmore ?_
          have hmul : (3 - depth') * (r.store.size + 2) ≤ (3 - depth) * (r.store.size + 2) :=
            Nat.mul_le_mul_right _ (by omega)
          simp only [stepsAt, List.length_cons] at hsteps hlonger ⊢
          omega
        · refine ih leadsTo_nil ?_
          have hmul : (3 - depth) * (r.store.size + 2)
              = (3 - (depth + 1)) * (r.store.size + 2) + (r.store.size + 2) := by
            rw [← Nat.succ_mul]
            congr 1
            omega
          simp only [stepsAt, List.length_nil] at hsteps ⊢
          omega
    | _ => rfl

/-! ## Values that are not shown -/

/-- **An object that leads back to itself is not shown in any number of steps.** -/
theorem showFrom?_of_cycle (h : Relation.TransGen r.Unfolds id id) :
    r.showFrom? steps depth [] top (.object id) = none := by
  induction steps generalizing id depth top with
  | zero => rfl
  | succ steps ih =>
    -- the next object leads back to itself, too
    obtain ⟨k, ⟨o, hget, hheld⟩, hk⟩ : ∃ k, r.Unfolds id k ∧ Relation.TransGen r.Unfolds k k := by
      rcases Relation.TransGen.head'_iff.mp h with ⟨k, hk, hback⟩
      exact ⟨k, hk, Relation.TransGen.tail' hback hk⟩
    have hnone : ∀ depth top, r.showFrom? steps depth [] top (.object k) = none := fun _ _ => ih hk
    rcases Kind.held?_eq_some_iff.mp hheld with hkind | hkind | hkind
    all_goals simp [showFrom?, hget, hkind, hnone]

/-- **All values can be shown** if and only if every error has a text and no object is shown by itself. -/
theorem shows_iff : (∀ v, (r.show? v).isSome) ↔
    (∀ id, ¬ Relation.TransGen r.Unfolds id id) ∧ r.NamesErrors := by
  constructor
  · refine fun hshow => ⟨fun id hcycle => ?_, fun id o hget hkind => ?_⟩
    · have hnone : r.show? (.object id) = none := showFrom?_of_cycle hcycle
      exact absurd (hshow (.object id)) (by rw [hnone]; exact Bool.false_ne_true)
    · have hsome := hshow (.object id)
      unfold show? showLimit at hsome
      rw [Nat.mul_add] at hsome
      simpa [showFrom?, hget, hkind] using hsome
  · rintro ⟨hcycle, herrors⟩ v
    refine isSome_showFrom? hcycle herrors leadsTo_nil ?_
    simp only [stepsAt, showLimit, List.length_nil]
    omega

/-- A promise that is settled with itself is no value that can be shown. -/
example (r : Realm) :
    { r with store := ⟨#[{ prototype := none, kind := .promise (.fulfilled (.object 0)) }]⟩ }.show?
      (.object 0) = none :=
  showFrom?_of_cycle (.single ⟨_, rfl, rfl⟩)

end Realm

/-! ## Promises that are resumed -/

/-- **A promise whose entry is settled with itself** is linked to itself, and cannot be shown any more. -/
theorem yields_linkPayload_self {r : Realm} {session : SessionId} {S : Session} {reference : String}
    {id : ObjectId} {o : Object} {state : PromiseState} {j : Json} {d : ℕ}
    (hs : r.sessions[session]? = some S) (hmade : S.made.find? reference = some (.object id))
    (hget : r.store.get id = .ok o) (hkind : o.kind = .promise state)
    (hread : Payload.ofJson? .promise j = some (.fulfilled (.entry reference)) ∨
      Payload.ofJson? .promise j = some (.rejected (.entry reference))) :
    ∃ r', Yields (@linkPayload (engine (d + 1)) session id .promise j) r () r' ∧
      ∀ steps, r'.showFrom? steps 0 [] true (.object id) = none := by
  let _ : Machine := engine (d + 1)
  have hresolve : Yields (resolve session (.entry reference)) r (.object id) r := by
    show Yields (@resolveEntry (engine d) session reference) r (.object id) r
    refine (yields_sessionAt hs).bind ?_
    simp only [hmade]
    exact Yields.pure _ r
  have hsettle : ∀ state', Kind.held? (.promise state') = some (.object id) →
      ∃ r', Yields (linkPayload.settle id state') r () r' ∧
        ∀ steps, r'.showFrom? steps 0 [] true (.object id) = none := by
    intro state' hheld
    let r' := { r with store := r.store.set id { o with kind := .promise state' } }
    have hnext : r'.Unfolds id id := ⟨_, Store.get_set_self (Store.lt_size_of_get hget), hheld⟩
    refine ⟨r', (yields_kindOf hget).bind ?_, fun steps => Realm.showFrom?_of_cycle (.single hnext)⟩
    rw [hkind]
    exact yields_setKind hget
  rcases hread with hread | hread
  · obtain ⟨r', hy, hnone⟩ := hsettle (.fulfilled (.object id)) rfl
    exact ⟨r', (yields_readPayload hread r).bind (hresolve.bind hy), hnone⟩
  · obtain ⟨r', hy, hnone⟩ := hsettle (.rejected (.object id)) rfl
    exact ⟨r', (yields_readPayload hread r).bind (hresolve.bind hy), hnone⟩

end Stasis
