import Mathlib
import Stasis.Proofs.Store
import Stasis.Proofs.Walk

/-!
# Realms that grow

* `Symbols.descriptions_create`, `Symbols.descriptions_shared`: symbols keep their descriptions.
* `Realm.Grows.trans`: growing goes on.
* `Realm.Grows.push`, `Realm.Grows.setFresh`: a new object, and a change to one.
* `Realm.PathsLead.bound`: one depth is enough for all paths.
-/

namespace Stasis

/-! ## Symbols -/

namespace Symbols

variable (s : Symbols)

theorem descriptions_create (description : Option String) :
    s.descriptions.toList <+: (s.create description).2.descriptions.toList := by
  unfold create
  rw [Array.toList_push]
  exact List.prefix_append _ _

theorem descriptions_shared (key : String) :
    s.descriptions.toList <+: (s.shared key).2.descriptions.toList := by
  unfold shared
  split
  · exact List.prefix_rfl
  · exact s.descriptions_create (some key)

end Symbols

/-! ## Realms -/

namespace Realm

variable {r r' r'' : Realm} {ρ : References}

theorem Grows.refl (r : Realm) : r.Grows r :=
  ⟨fun _ _ h => h, le_refl _, fun _ _ h => h, fun _ _ h => h, fun _ _ h => h, fun _ _ h => h,
    fun _ _ h => h, fun _ _ h => h, rfl, rfl, rfl, rfl, rfl, rfl, rfl⟩

theorem Grows.trans (h : r.Grows r') (h' : r'.Grows r'') : r.Grows r'' where
  objects := fun id o ho => h'.objects id o (h.objects id o ho)
  size := h.size.trans h'.size
  environments := fun id e he => h'.environments id e (h.environments id e he)
  descriptions := fun id d hd => h'.descriptions id d (h.descriptions id d hd)
  shared := fun key id hk => h'.shared key id (h.shared key id hk)
  symbols := fun reference id hr => h'.symbols reference id (h.symbols reference id hr)
  registry := fun id record hr => h'.registry id record (h.registry id record hr)
  scopes := fun id t ht => h'.scopes id t (h.scopes id t ht)
  known := h'.known.trans h.known
  globalEnv := h'.globalEnv.trans h.globalEnv
  scriptEnv := h'.scriptEnv.trans h.scriptEnv
  hostPaths := h'.hostPaths.trans h.hostPaths
  types := h'.types.trans h.types
  config := h'.config.trans h.config
  depth := h'.depth.trans h.depth

/-- Sessions do not count. -/
theorem Grows.withSessions (h : r.Grows r') (sessions : Array Session) :
    r.Grows { r' with sessions } :=
  ⟨h.objects, h.size, h.environments, h.descriptions, h.shared, h.symbols, h.registry, h.scopes,
    h.known, h.globalEnv, h.scriptEnv, h.hostPaths, h.types, h.config, h.depth⟩

/-- References may be added. -/
theorem grows_giving (h : r.references.Le ρ) : r.Grows (r.giving ρ) :=
  { Grows.refl r with symbols := h.byReference }

/-- A store that has everything that was there. -/
theorem Grows.withStore (h : r.Grows r') {store : Store}
    (hobjects : ∀ id o, r.store.get id = .ok o → store.get id = .ok o)
    (hsize : r.store.size ≤ store.size) : r.Grows { r' with store } :=
  ⟨hobjects, hsize, h.environments, h.descriptions, h.shared, h.symbols, h.registry, h.scopes,
    h.known, h.globalEnv, h.scriptEnv, h.hostPaths, h.types, h.config, h.depth⟩

theorem Grows.push (h : r.Grows r') (o : Object) :
    r.Grows { r' with store := ⟨r'.store.objects.push o⟩ } :=
  h.withStore (fun id _ ho => Store.get_push (h.objects id _ ho)) (by
    rw [Store.size_push]
    exact Nat.le_succ_of_le h.size)

/-- An object that was not there may change. -/
theorem Grows.setFresh (h : r.Grows r') {id : ObjectId} (hid : r.store.size ≤ id) (o : Object) :
    r.Grows { r' with store := r'.store.set id o } :=
  h.withStore (fun id' o' ho => by
    rw [Store.get_set_of_ne]
    · exact h.objects id' o' ho
    · rintro rfl
      exact absurd (Store.lt_size_of_get ho) (not_lt_of_ge hid)) (by rw [Store.size_set]; exact h.size)

/-- At the depth, and at any greater one, every path leads to its object. -/
def LeadsFrom (r : Realm) (n : ℕ) : Prop :=
  ∀ id path, r.hostPaths.pathOf? id = some path → ∀ depth, n ≤ depth → ∀ r', r.Grows r' →
    ∃ r'', Yields (@resolvePath (engine depth) path) r' (.object id) r''
      ∧ r'.Grows r'' ∧ r''.sessions = r'.sessions

/-- One depth is enough for all paths. -/
theorem PathsLead.bound (h : r.PathsLead) : ∃ n, r.LeadsFrom n := by
  have hlist : ∀ l : List (ObjectId × String), (∀ q ∈ l, q ∈ r.hostPaths.paths.entries) →
      ∃ n, ∀ q ∈ l, ∀ depth, n ≤ depth → ∀ r', r.Grows r' →
        ∃ r'', Yields (@resolvePath (engine depth) q.2) r' (.object q.1) r''
          ∧ r'.Grows r'' ∧ r''.sessions = r'.sessions := by
    intro l hl
    induction l with
    | nil => exact ⟨0, fun q hq => absurd hq List.not_mem_nil⟩
    | cons q l ih =>
      obtain ⟨hq, hl⟩ := List.forall_mem_cons.mp hl
      obtain ⟨m, hm⟩ := h.leads q.1 q.2 (Table.find?_eq_some_iff.mpr hq)
      obtain ⟨n, hn⟩ := ih hl
      refine ⟨max m n, List.forall_mem_cons.mpr ⟨fun depth hd => ?_, fun q' hq' depth hd => ?_⟩⟩
      · exact hm depth ((le_max_left m n).trans hd)
      · exact hn q' hq' depth ((le_max_right m n).trans hd)
  obtain ⟨n, hn⟩ := hlist r.hostPaths.paths.entries fun _ hq => hq
  exact ⟨n, fun id path hp => hn (id, path) (Table.find?_eq_some_iff.mp hp)⟩

end Realm

end Stasis
