import Mathlib
import Stasis.Proofs.Acyclic
import Stasis.Proofs.Session

/-!
# Copies of graphs of data

What is suspended and resumed in the same realm is a copy: the same graph, made of new objects.

Objects are linked in the order in which they were made, and what is then behind a prototype is what its
depth is measured by. So a long chain survives if the object in front of it is made first, and comes to
the bound if it is made last. Of all chains it is proved that nothing else can happen to them, and of short
ones that they survive.

* `Realm.IsCopy.of_linking`: when all objects are linked, the value is a copy.
* `deserialize_cases`: the envelope of a graph of data is read, or refused for the depth of a chain.
* `yields_roundTrip`: a graph of data survives being suspended and resumed, if it is not refused so.
* `raises_serialize_class`: an array, a map or the like that is the prototype of a class is refused.
* `not_yields_roundTrip`: an object in front of a tower of prototypes, and an array of this sort.
-/

namespace Stasis

variable {f : ObjectId → ObjectId} {o o' : Object} {w : Value}

/-! ## What copies refer to -/

theorem Descriptor.values_map (d : Descriptor) (f : ObjectId → ObjectId) :
    (d.map f).values = d.values.map (Value.map f) := by
  cases d with
  | data => rfl
  | accessor g s => cases g <;> cases s <;> rfl

theorem CollectionKey.toValue_map (k : CollectionKey) (f : ObjectId → ObjectId) :
    (k.map f).toValue = k.toValue.map f := by
  cases k <;> rfl

theorem Kind.IsCopy.values {k k' : Kind} (h : k.IsCopy f k') :
    k'.values = k.values.map (Value.map f) := by
  cases k with
  | map entries =>
    cases k' <;> first | exact h.elim | skip
    have h : _ = _ := h
    simp only [Kind.values, h, List.flatMap_map, List.map_flatMap, CollectionKey.toValue_map,
      List.map_cons, List.map_nil]
  | set elements =>
    cases k' <;> first | exact h.elim | skip
    have h : _ = _ := h
    simp only [Kind.values, h, List.map_map, Function.comp_def, CollectionKey.toValue_map]
  | promise state =>
    cases state with
    | pending => cases k' <;> exact h.elim
    | fulfilled w =>
      cases k' <;> first | exact h.elim | skip
      next state => cases state <;> first | exact h.elim | exact congrArg (fun x => [x]) h
    | rejected w =>
      cases k' <;> first | exact h.elim | skip
      next state => cases state <;> first | exact h.elim | exact congrArg (fun x => [x]) h
  | wrapper w =>
    cases k' <;> first | exact h.elim | exact congrArg (fun x => [x]) h
  | bytes viewed offset length =>
    cases k' <;> first | exact h.elim | exact congrArg (fun x => [Value.object x]) h.1
  | _ => cases k' <;> first | exact h.elim | rfl

/-- A copy refers to the copies of what the object refers to. -/
theorem Object.IsCopy.mem_values_iff (h : o.IsCopy f o') :
    w ∈ o'.values ↔ ∃ u ∈ o.values, w = u.map f := by
  simp only [Object.mem_values_iff, h.properties, h.kind.values, h.prototype]
  constructor
  · rintro (⟨p, hp, rfl⟩ | ⟨k, d', hq, hw⟩ | hw)
    · obtain ⟨q, hq, rfl⟩ := Option.map_eq_some_iff.mp hp
      exact ⟨_, Or.inl ⟨q, hq, rfl⟩, rfl⟩
    · obtain ⟨⟨k₁, d⟩, hown, he⟩ := List.mem_map.mp hq
      cases he
      rw [Descriptor.values_map] at hw
      obtain ⟨u, hu, rfl⟩ := List.mem_map.mp hw
      exact ⟨u, Or.inr (Or.inl ⟨_, d, hown, hu⟩), rfl⟩
    · obtain ⟨u, hu, rfl⟩ := List.mem_map.mp hw
      exact ⟨u, Or.inr (Or.inr hu), rfl⟩
  · rintro ⟨u, ⟨p, hp, rfl⟩ | ⟨k, d, hq, hu⟩ | hu, rfl⟩
    · exact Or.inl ⟨f p, by rw [hp]; rfl, rfl⟩
    · refine Or.inr (Or.inl ⟨k, d.map f, List.mem_map_of_mem hq, ?_⟩)
      rw [Descriptor.values_map]
      exact List.mem_map_of_mem hu
    · exact Or.inr (Or.inr (List.mem_map_of_mem hu))

/-! ## When all objects are linked -/

variable {S : Session} {r r' : Realm} {v : Value} {ρ : References} {e : Envelope}
  {session : SessionId} {id : ObjectId} {n d : ℕ} {cause : EngineError}

section Linked

variable (hc : r.CanResume v ρ e n) (hall : S.IsComplete r v ρ)
  (h : r.Linking ρ session S (fun _ o o' => o.IsCopy (S.copyOf ρ) o') r')
include hc hall h

/-- Copies are objects of the host just where their originals are. -/
theorem contains_copyOf (hid : r.Holds v (.object id)) :
    r'.hostPaths.contains (S.copyOf ρ id) = r.hostPaths.contains id := by
  have hpaths : r'.hostPaths = r.hostPaths := h.grows.hostPaths
  rw [hpaths]
  cases hhost : r.hostPaths.contains id with
  | true => rw [hall.host id hhost, hhost]
  | false =>
    refine Bool.eq_false_iff.mpr fun hcopy => ?_
    obtain ⟨o, ho⟩ := hc.hosts _ hcopy
    exact absurd (Store.lt_size_of_get ho)
      (not_lt_of_ge (hall.fresh id _ (hall.hasMade ⟨hid, hhost⟩)))

/-- What the value holds has a copy that the copy holds. -/
theorem holds_map (hw : r.Holds v w) : r'.Holds (v.map (S.copyOf ρ)) (w.map (S.copyOf ρ)) := by
  induction hw with
  | self => exact .self
  | @step id o w held inner found refers ih =>
    obtain ⟨o', ho', hcopy⟩ := h.objects id _ o (hall.hasMade ⟨held, inner⟩) found
    exact .step ih ((contains_copyOf hc hall h held).trans inner) ho'
      (hcopy.mem_values_iff.mpr ⟨w, refers, rfl⟩)

/-- What the copy holds is a copy of what the value holds. -/
theorem exists_of_holds (hw : r'.Holds (v.map (S.copyOf ρ)) w) :
    ∃ u, r.Holds v u ∧ w = u.map (S.copyOf ρ) := by
  induction hw with
  | self => exact ⟨v, .self, rfl⟩
  | @step id' o' w held inner found refers ih =>
    obtain ⟨u, hu, he⟩ := ih
    obtain ⟨id, rfl⟩ : ∃ id, u = .object id := by
      cases u <;> first | exact ⟨_, rfl⟩ | cases he
    cases he
    have hhost := (contains_copyOf hc hall h hu).symm.trans inner
    obtain ⟨o, ho⟩ := hc.data.found id hu
    obtain ⟨o₁, ho₁, hcopy⟩ := h.objects id _ o (hall.hasMade ⟨hu, hhost⟩) ho
    rw [found] at ho₁
    cases ho₁
    obtain ⟨u', hu', rfl⟩ := hcopy.mem_values_iff.mp refers
    exact ⟨u', .step hu hhost ho hu', rfl⟩

/-- **When all objects are linked**, the value is a copy. -/
theorem Realm.IsCopy.of_linking : r.IsCopy r' v (v.map (S.copyOf ρ)) := by
  refine ⟨S.copyOf ρ, rfl, ⟨?_, ?_, ?_⟩, hall.host, fun id hid => hall.fresh id _ (hall.hasMade hid),
    fun id o hid ho => h.objects id _ o (hall.hasMade hid) ho, h.grows.objects⟩
  · exact fun id hid => ⟨holds_map hc hall h hid.1,
      (contains_copyOf hc hall h hid.1).trans hid.2⟩
  · exact fun id₁ h₁ id₂ h₂ he => copyOf_injective hc hall h₁.1 h₂.1 he
  · intro id' hid'
    obtain ⟨u, hu, he⟩ := exists_of_holds hc hall h hid'.1
    obtain ⟨id, rfl⟩ : ∃ id, u = .object id := by
      cases u <;> first | exact ⟨_, rfl⟩ | cases he
    cases he
    exact ⟨id, ⟨hu, (contains_copyOf hc hall h hu).symm.trans hid'.2⟩, rfl⟩

end Linked

/-! ## There and back -/

/-- A session that has made nothing yet. -/
theorem Realm.making_start (hg : (r.giving ρ).Grows r') :
    r.Making v ρ e r'.sessions.size
      { r' with sessions := r'.sessions.push { entries := e.entries } } { entries := e.entries } where
  grows := hg.withSessions _
  session := Array.getElem?_push_size
  entries := rfl
  inner := fun _ _ hm => nomatch hm
  bare := fun _ _ ⟨_, _, hm⟩ => nomatch hm
  injective := fun _ _ _ ⟨_, _, hm⟩ _ => nomatch hm
  unfinished := fun _ hr => absurd hr List.not_mem_nil

/-- A copy is still one when the session is closed. -/
theorem Realm.IsCopy.congr {r'' : Realm} (h : r.IsCopy r' v w) (hstore : r''.store = r'.store)
    (hpaths : r''.hostPaths = r'.hostPaths) : r.IsCopy r'' v w := by
  have hholds : ∀ u, r''.Holds w u ↔ r'.Holds w u := by
    intro u
    constructor
    · intro hu
      induction hu with
      | self => exact .self
      | step _ inner found refers ih => exact .step ih (hpaths ▸ inner) (hstore ▸ found) refers
    · intro hu
      induction hu with
      | self => exact .self
      | step _ inner found refers ih =>
        exact .step ih (hpaths.symm ▸ inner) (hstore.symm ▸ found) refers
  obtain ⟨f, hw, hbij, hrest⟩ := h
  refine ⟨f, hw, ?_, ?_⟩
  · simpa only [Realm.Inner, hholds, hpaths] using hbij
  · simpa only [hstore] using hrest

/-- An envelope whose session fails is not read. -/
theorem raises_deserialize [Machine] {e : Envelope} {S : Session}
    (h : Raises (runSession r.sessions.size e)
      { r with sessions := r.sessions.push { entries := e.entries } } cause r')
    (hS : r'.sessions[r.sessions.size]? = some S) :
    ∃ r'', Raises (deserialize e) r cause r'' := by
  have hsession : Yields (withSession e.entries fun session => runSession session e) r
      (.error cause, S.made.size)
      { r' with
        sessions := r'.sessions.take r.sessions.size
        scopes := r'.scopes.map fun t =>
          if t.session == some r.sessions.size then { t with session := none } else t } := by
    refine (yields_get r).bind ((yields_modify _ r).bind (h.attempt.bind ?_))
    refine (yields_get r').bind ((yields_modify _ r').bind ?_)
    rw [hS]
    exact Yields.pure _ _
  let detail := "entries=" ++ toString e.entries.size ++ " created=" ++ toString S.made.size
  obtain ⟨r'', hr⟩ : ∃ r'', Raises (noted "deserializer" "deserialize" (fun _ => pure detail)
      (raise cause : Run Value)) { r' with
        sessions := r'.sessions.take r.sessions.size
        scopes := r'.scopes.map fun t =>
          if t.session == some r.sessions.size then { t with session := none } else t } cause r'' :=
    Raises.noted (raises_raise cause _) (Yields.pure _ _)
  exact ⟨r'', hsession.bind_raises hr⟩

/-- **The envelope of a graph of data is read**, and its value is a copy; or it is refused for the depth
of a chain. -/
theorem deserialize_cases (hc : r.CanResume v ρ e n) (hd : n ≤ d) (hsize : e.entries.size < d + 3)
    (harrays : r.ArraysEnd v) {a b : ℕ} (hchains : r.ChainsWithin v a b) (hg : (r.giving ρ).Grows r') :
    (∃ w r'', Yields (@deserialize (engine (d + 3)) e) r' w r'' ∧ r.IsCopy r'' v w) ∨
    (maxChainDepth + 1 < a + b ∧
      ∃ r'', Raises (@deserialize (engine (d + 3)) e) r' chainCause r'') := by
  let _ : Machine := engine (d + 3)
  rcases runSession_cases hc hd hsize harrays hchains (Realm.making_start (v := v) (e := e) hg) rfl with
    ⟨r₁, S, hy, hall, hlinking⟩ | ⟨hlong, S, r₁, hraises, hS⟩
  · have hcopy := Realm.IsCopy.of_linking hc hall hlinking
    have hsession : Yields (withSession e.entries fun session => runSession session e) r'
        (.ok (v.map (S.copyOf ρ)), S.made.size)
        { r₁ with
          sessions := r₁.sessions.take r'.sessions.size
          scopes := r₁.scopes.map fun t =>
            if t.session == some r'.sessions.size then { t with session := none } else t } := by
      refine (yields_get r').bind ((yields_modify _ r').bind (hy.attempt.bind ?_))
      refine (yields_get r₁).bind ((yields_modify _ r₁).bind ?_)
      rw [hlinking.session]
      exact Yields.pure _ _
    refine .inl ⟨_, _, hsession.bind ((yields_ofExcept _ _).noted (Yields.pure _ _)), ?_⟩
    exact hcopy.congr rfl rfl
  · exact .inr ⟨hlong, raises_deserialize hraises hS⟩

/-- **With short chains it is read.** -/
theorem yields_deserialize (hc : r.CanResume v ρ e n) (hd : n ≤ d) (hsize : e.entries.size < d + 3)
    (harrays : r.ArraysEnd v) (hshort : r.HasShortChains v) (hg : (r.giving ρ).Grows r') :
    ∃ w r'', Yields (@deserialize (engine (d + 3)) e) r' w r'' ∧ r.IsCopy r'' v w := by
  obtain ⟨a, b, hab, hchains⟩ := hshort
  exact (deserialize_cases hc hd hsize harrays hchains hg).resolve_right fun h => h.1.not_ge hab

/-- An envelope has no more entries than the realm has objects. -/
theorem Realm.IsWrittenAs.size_le (hdata : r.IsDataGraph v) (h : r.IsWrittenAs v ρ e) :
    e.entries.size ≤ r.store.size := by
  have hsub : e.entries.keys ⊆ (List.range r.store.size).filterMap ρ.objects.find? := by
    intro reference hr
    obtain ⟨id, hid, hf⟩ := h.only reference hr
    obtain ⟨o, ho⟩ := hdata.found id hid.1
    exact List.mem_filterMap.mpr ⟨id, List.mem_range.mpr (Store.lt_size_of_get ho), hf⟩
  have hlength : e.entries.keys.length ≤ _ :=
    (List.subperm_of_subset e.entries.nodup hsub).length_le
  have hfilter := List.length_filterMap_le ρ.objects.find? (List.range r.store.size)
  have hsize : e.entries.keys.length = e.entries.size := by simp [Table.keys, Table.size]
  rw [List.length_range] at hfilter
  omega

/-- Chains of prototypes end, and the prototypes that new objects begin with are there. -/
structure Realm.IsGrounded (r : Realm) : Prop where
  chains : r.store.ChainsEnd
  known : ∀ p ∈ r.known.prototypes, ∃ o, r.store.get p = .ok o

theorem Realm.IsGrounded.chainsWithin (h : r.IsGrounded) (v : Value) :
    r.ChainsWithin v r.store.size r.store.size where
  graph id o _ ho := (h.chains.within_size ho).mono (Nat.sub_le _ 1)
  known p hp := by
    obtain ⟨o, ho⟩ := h.known p hp
    exact h.chains.within_size_some ho

/-- At every depth that is great enough, the value is suspended and resumed, and comes back as a copy. -/
def Realm.RoundTrips (r : Realm) (v : Value) : Prop :=
  ∃ n, ∀ depth, n ≤ depth → ∃ e r₁ w r₂,
    Yields (@serialize (engine depth) v {}) r e r₁
    ∧ Yields (@deserialize (engine depth) e) r₁ w r₂
    ∧ r.IsCopy r₂ v w

/-- **A graph of data survives being suspended and resumed**, or what was written is refused for the depth
of a chain of prototypes. If chains are short it survives: the value that is read is a copy of the one
that was written. -/
theorem yields_roundTrip (hsound : r.Sound) (hgrounded : r.IsGrounded) (hpaths : r.PathsLead)
    (hdata : r.IsDataGraph v) (hnumbers : r.KeepsNumbers v) (harrays : r.ArraysEnd v) :
    ∃ n, ∀ depth, n ≤ depth → ∃ e r₁, Yields (@serialize (engine depth) v {}) r e r₁ ∧
      ((∃ w r₂, Yields (@deserialize (engine depth) e) r₁ w r₂ ∧ r.IsCopy r₂ v w) ∨
        (¬ r.HasShortChains v ∧ ∃ r₂, Raises (@deserialize (engine depth) e) r₁ chainCause r₂)) := by
  obtain ⟨n, hn⟩ := hpaths.bound
  refine ⟨n + r.store.size + 4, fun depth hdepth => ?_⟩
  obtain ⟨d, rfl⟩ : ∃ d, depth = d + 3 := ⟨depth - 3, by omega⟩
  obtain ⟨ρ, e, events, hy, hwritten⟩ := yields_serialize hsound hdata hnumbers
    (d := d + 3) (by omega)
  have hc : r.CanResume v ρ e n := ⟨hsound, hdata, hnumbers, hwritten, hpaths.found, hn⟩
  have hsize := hwritten.size_le hdata
  have hgrows : (r.giving ρ).Grows { r.giving ρ with events } :=
    { Realm.Grows.refl (r.giving ρ) with }
  refine ⟨e, _, hy, ?_⟩
  by_cases hshort : r.HasShortChains v
  · exact .inl (yields_deserialize hc (d := d) (by omega) (by omega) harrays hshort hgrows)
  · exact (deserialize_cases hc (d := d) (by omega) (by omega) harrays (hgrounded.chainsWithin v)
      hgrows).imp_right fun h => ⟨hshort, h.2⟩

/-- What a value holds is itself, or something that one of the objects refers to. -/
theorem Realm.Holds.eq_or_mem (h : r.Holds v w) :
    w = v ∨ w ∈ r.store.objects.toList.flatMap Object.values := by
  cases h with
  | self => exact .inl rfl
  | step _ _ found refers =>
    have hmem := List.mem_of_getElem? (Array.getElem?_toList ▸ Store.get_eq_ok_iff.mp found)
    exact .inr (List.mem_flatMap.mpr ⟨_, hmem, refers⟩)

/-! ## An object that holds itself -/

/-- The environment in which `x` is the object of the host. -/
def hostEnvironment : Environment where
  parent := none
  cells := Table.ofList [("x", { value := .object 1 })]

/-- A realm of few objects; `x` leads to the second one. -/
def Realm.small (objects : Array Object) (known : ObjectId) : Realm where
  store := ⟨objects⟩
  symbols := {}
  environments := ⟨#[hostEnvironment]⟩
  known := ⟨known, known, known, known, known, known, known, known, known, known, known, known,
    known, known, known, known, fun _ => known⟩
  globalEnv := 0
  scriptEnv := 0
  hostPaths := ⟨Table.ofList [(1, "x")]⟩
  config := {}
  events := { traceId := "" }

namespace Realm

variable {objects : Array Object} {known : ObjectId}

theorem small_contains (h : (small objects known).hostPaths.contains id = true) : id = 1 := by
  have hid : id ∈ [1] := Table.contains_iff.mp h
  exact List.mem_singleton.mp hid

/-- The path is the name of a variable, so nothing runs when it is followed. -/
theorem yields_resolvePath_small {r : Realm} (hr : (small objects known).Grows r) (depth : ℕ) :
    Yields (@resolvePath (engine (depth + 1)) "x") r (.object 1) r := by
  have hparse : ∃ node span,
      Script.parseExpression "x" recordedLabel = .ok (.ident "x" node span) := ⟨_, _, rfl⟩
  obtain ⟨node, span, hparse⟩ := hparse
  have henv : r.environments.get? r.scriptEnv = some hostEnvironment := by
    rw [show r.scriptEnv = 0 from hr.scriptEnv]
    exact hr.environments 0 hostEnvironment rfl
  exact yields_resolvePath (c := { value := .object 1 }) hparse henv rfl rfl rfl

theorem small_pathOf? {path : String} (h : (small objects known).hostPaths.pathOf? id = some path) :
    id = 1 ∧ path = "x" := by
  have hmem : (id, path) ∈ [((1 : ObjectId), "x")] := Table.find?_eq_some_iff.mp h
  simpa using hmem

theorem small_pathsLead (hfound : ∃ o, (small objects known).store.get 1 = .ok o) :
    (small objects known).PathsLead := by
  refine ⟨fun id hid => small_contains hid ▸ hfound, fun id path hpath => ?_⟩
  obtain ⟨rfl, rfl⟩ := small_pathOf? hpath
  refine ⟨1, fun depth hdepth r' hg => ⟨r', ?_, .refl r', rfl⟩⟩
  obtain ⟨depth, rfl⟩ : ∃ d, depth = d + 1 := ⟨depth - 1, by omega⟩
  exact yields_resolvePath_small hg depth

theorem small_isPrototype {p : ObjectId} (h : p ∈ (small objects known).known.prototypes) :
    p = known := by
  simpa [small, WellKnown.prototypes] using h

end Realm

/-- An object that refers to itself, to the host, and to a set that holds it. -/
def knotRealm : Realm := .small #[
    { prototype := some 1, kind := .ordinary
      properties := Table.ofList [
        (.text "self", .plain (.object 0)),
        (.text "elements", .plain (.object 2)),
        (.text "size", .readonly (.number 1))] },
    { prototype := none, kind := .ordinary },
    { prototype := none, kind := .set (Table.ofList [(.object 0, ())]) }] 1

theorem knotRealm_get (h : knotRealm.store.get id = .ok o) :
    id = 0 ∧ o = knotRealm.store.objects[0] ∨ id = 1 ∧ o = knotRealm.store.objects[1]
      ∨ id = 2 ∧ o = knotRealm.store.objects[2] := by
  have hid : id < 3 := Store.lt_size_of_get h
  interval_cases id <;> cases h <;> simp

theorem knotRealm_holds (h : knotRealm.Holds (.object 0) w) :
    w ∈ [Value.object 1, .object 0, .object 2, .number 1] := by
  induction h with
  | self => simp
  | @step _ _ w _ inner found refers =>
    rcases knotRealm_get found with ⟨rfl, rfl⟩ | ⟨rfl, rfl⟩ | ⟨rfl, rfl⟩
    · exact refers
    · cases inner
    · have hw : w ∈ [Value.object 0] := refers
      simp_all

theorem knotRealm_sound : knotRealm.Sound where
  references := ⟨nofun, nofun, nofun⟩
  objects := by
    intro id o ho
    rcases knotRealm_get ho with ⟨rfl, rfl⟩ | ⟨rfl, rfl⟩ | ⟨rfl, rfl⟩
    · refine ⟨trivial, fun d hd => ?_, nofun⟩
      have hd : d ∈ [Descriptor.plain (.object 0), .plain (.object 2), .readonly (.number 1)] := hd
      fin_cases hd <;> trivial
    · exact ⟨trivial, nofun, nofun⟩
    · refine ⟨fun k hk => ?_, nofun, nofun⟩
      obtain rfl : k = .object 0 := List.mem_singleton.mp hk
      rfl
  types := rfl

theorem knotRealm_isDataGraph : knotRealm.IsDataGraph (.object 0) where
  found := by
    intro id h
    have h := knotRealm_holds h
    simp only [List.mem_cons, Value.object.injEq, reduceCtorEq, List.not_mem_nil, or_false] at h
    rcases h with rfl | rfl | rfl <;> exact ⟨_, rfl⟩
  data := by
    intro id o _ ho
    rcases knotRealm_get ho with ⟨rfl, rfl⟩ | ⟨rfl, rfl⟩ | ⟨rfl, rfl⟩ <;> trivial
  classless := fun _ _ => rfl
  wide := by
    intro n h
    simpa using knotRealm_holds h

theorem knotRealm_keepsNumbers : knotRealm.KeepsNumbers (.object 0) where
  numbers := by
    intro x h
    obtain rfl : x = 1 := by simpa using knotRealm_holds h
    unfold IsKept
    decide +kernel
  times := by
    intro id o x _ ho hx
    rcases knotRealm_get ho with ⟨rfl, rfl⟩ | ⟨rfl, rfl⟩ | ⟨rfl, rfl⟩ <;> cases hx

/-! ## One object of each kind -/

/-- An object with one object of each kind of data, most of which refer to it or to each other, and with
a text that needs escapes. -/
def chestRealm : Realm := .small #[
    { prototype := some 1, kind := .ordinary
      properties := Table.ofList [
        (.text "self", .plain (.object 0)), (.text "list", .plain (.object 2)),
        (.text "entries", .plain (.object 3)), (.text "elements", .plain (.object 4)),
        (.text "made", .readonly (.object 5)), (.text "pattern", .plain (.object 6)),
        (.text "boxed", .plain (.object 7)), (.text "view", .plain (.object 9)),
        (.text "done", .plain (.object 10)), (.text "\"\n", .plain (.text "\\ \x01"))] },
    { prototype := none, kind := .ordinary },
    { prototype := some 1, kind := .array
      properties := Table.ofList [
        (.length, .data (.number 2) true false false), (.text "1", .plain (.object 0))] },
    { prototype := some 2, kind := .map (Table.ofList [
        (.object 2, .object 0), (.text "key", .number 1)]) },
    { prototype := none, extensible := false, kind := .set (Table.ofList [(.object 0, ())]) },
    { prototype := some 1, kind := .date 1 },
    { prototype := some 1, kind := .regexp "a+" "g" },
    { prototype := some 1, kind := .wrapper (.text "text") },
    { prototype := some 1, kind := .buffer { bytes := ⟨#[1, 2, 3, 4]⟩ } },
    { prototype := some 1, kind := .bytes 8 1 2 },
    { prototype := some 1, kind := .promise (.fulfilled (.object 3)) }] 1

theorem lt_of_chestRealm_get (h : chestRealm.store.get id = .ok o) : id < 11 := Store.lt_size_of_get h

theorem chestRealm_holds (h : chestRealm.Holds (.object 0) w) :
    (∃ id < 11, w = .object id) ∨
      w ∈ [Value.number 1, .number 2, .text "key", .text "text", .text "\\ \x01"] := by
  have hvalues : chestRealm.store.objects.toList.flatMap Object.values =
      [.object 1, .object 0, .object 2, .object 3, .object 4, .object 5, .object 6, .object 7,
        .object 9, .object 10, .text "\\ \x01", .object 1, .number 2, .object 0, .object 2, .object 2,
        .object 0, .text "key", .number 1, .object 0, .object 1, .object 1, .object 1, .text "text",
        .object 1, .object 1, .object 8, .object 1, .object 3] := rfl
  rcases h.eq_or_mem with rfl | hw
  · exact .inl ⟨0, by decide, rfl⟩
  · rw [hvalues] at hw
    fin_cases hw <;> simp

theorem chestRealm_get_of_holds (h : chestRealm.Holds (.object 0) (.object id)) :
    ∃ o, chestRealm.store.get id = .ok o := by
  rcases chestRealm_holds h with ⟨id, hid, ⟨⟩⟩ | hmem
  · interval_cases id <;> exact ⟨_, rfl⟩
  · simp at hmem

theorem chestRealm_sound : chestRealm.Sound where
  references := ⟨nofun, nofun, nofun⟩
  objects := by
    intro id o ho
    have hid := lt_of_chestRealm_get ho
    refine ⟨?_, ?_, ?_⟩
    · interval_cases id <;> cases ho <;> first | trivial | skip
      · intro k hk
        fin_cases hk <;> rfl
      · intro k hk
        fin_cases hk
        rfl
      · exact nofun
    · have hdata : o.properties.values.all Descriptor.isData = true := by
        interval_cases id <;> cases ho <;> rfl
      intro d hd
      have hd := List.all_eq_true.mp hdata d hd
      cases d with
      | data => trivial
      | accessor => cases hd
    · intro harray
      interval_cases id <;> cases ho <;> cases harray
      exact ⟨_, _, _, rfl⟩
  types := rfl

theorem chestRealm_isGrounded : chestRealm.IsGrounded where
  chains := by
    intro id o ho
    have hid := lt_of_chestRealm_get ho
    refine ⟨2, ?_⟩
    interval_cases id <;> cases ho <;> first
      | trivial
      | exact ⟨_, rfl, trivial⟩
      | exact ⟨_, rfl, _, rfl, trivial⟩
  known p hp := Realm.small_isPrototype hp ▸ ⟨_, rfl⟩

theorem chestRealm_pathsLead : chestRealm.PathsLead := Realm.small_pathsLead ⟨_, rfl⟩

theorem chestRealm_isDataGraph : chestRealm.IsDataGraph (.object 0) where
  found _ h := chestRealm_get_of_holds h
  data := by
    intro id o _ ho
    have hid := lt_of_chestRealm_get ho
    interval_cases id <;> cases ho <;> first | trivial | exact ⟨_, _, rfl, rfl, by decide⟩
  classless _ _ := rfl
  wide := by
    intro n h
    rcases chestRealm_holds h with ⟨_, _, ⟨⟩⟩ | hmem
    simp at hmem

theorem chestRealm_keepsNumbers : chestRealm.KeepsNumbers (.object 0) where
  numbers := by
    intro x h
    unfold IsKept
    rcases chestRealm_holds h with ⟨_, _, ⟨⟩⟩ | hmem
    simp only [List.mem_cons, Value.number.injEq, reduceCtorEq, List.not_mem_nil, or_false] at hmem
    rcases hmem with rfl | rfl <;> decide +kernel
  times := by
    intro id o x _ ho hx
    have hid := lt_of_chestRealm_get ho
    interval_cases id <;> cases ho <;> cases hx
    rw [IsKeptTime, if_pos (by decide +kernel)]
    exact ⟨_, rfl, by decide +kernel⟩

theorem chestRealm_arraysEnd : chestRealm.ArraysEnd (.object 0) := by
  intro id o _ ho ha
  have hid := lt_of_chestRealm_get ho
  interval_cases id <;> cases ho <;> cases ha
  intro key d index x w e c hmem hindex _ hlength
  have htwo : Object.toLength 2 = 2 := by decide +kernel
  obtain rfl : (2 : Float) = x := by cases hlength; rfl
  rw [htwo]
  fin_cases hmem
  · cases hindex
  · cases hindex
    decide

/-- The object comes back with all that it holds. -/
theorem yields_roundTrip_chest : chestRealm.Sound ∧ chestRealm.IsGrounded ∧ chestRealm.PathsLead
    ∧ chestRealm.IsDataGraph (.object 0) ∧ chestRealm.KeepsNumbers (.object 0)
    ∧ chestRealm.ArraysEnd (.object 0) ∧ chestRealm.HasShortChains (.object 0)
    ∧ chestRealm.RoundTrips (.object 0) := by
  have hshort : chestRealm.HasShortChains (.object 0) :=
    ⟨11, 11, by decide, chestRealm_isGrounded.chainsWithin _⟩
  obtain ⟨n, hn⟩ := yields_roundTrip chestRealm_sound chestRealm_isGrounded chestRealm_pathsLead
    chestRealm_isDataGraph chestRealm_keepsNumbers chestRealm_arraysEnd
  refine ⟨chestRealm_sound, chestRealm_isGrounded, chestRealm_pathsLead, chestRealm_isDataGraph,
    chestRealm_keepsNumbers, chestRealm_arraysEnd, hshort, n, fun depth hdepth => ?_⟩
  obtain ⟨e, r₁, hy, ⟨w, r₂, hy', hcopy⟩ | ⟨hlong, -⟩⟩ := hn depth hdepth
  · exact ⟨e, r₁, w, r₂, hy, hy', hcopy⟩
  · exact absurd hshort hlong

/-! ## An object in front of a tower -/

/-- An object of the tower; the last one has nothing behind it. -/
def towerObject (i : ℕ) : Object where
  prototype := if i = maxChainDepth + 1 then none else some (i + 2)
  kind := .ordinary

/-- An object in front of a tower of prototypes. The host is on top of the tower. -/
def towerRealm : Realm := .small
  ({ prototype := some 1, kind := .ordinary }
    :: (List.range (maxChainDepth + 2)).map towerObject).toArray (maxChainDepth + 2)

theorem towerRealm_size : towerRealm.store.size = maxChainDepth + 3 := by
  simp only [towerRealm, Realm.small, Store.size, List.size_toArray, List.length_cons,
    List.length_map, List.length_range]

theorem towerRealm_get_zero :
    towerRealm.store.get 0 = .ok { prototype := some 1, kind := .ordinary } := by
  rw [Store.get_eq_ok_iff]
  simp only [towerRealm, Realm.small, List.getElem?_toArray, List.getElem?_cons_zero]

theorem towerRealm_get_succ {i : ℕ} (hi : i < maxChainDepth + 2) :
    towerRealm.store.get (i + 1) = .ok (towerObject i) := by
  rw [Store.get_eq_ok_iff]
  simp only [towerRealm, Realm.small, List.getElem?_toArray, List.getElem?_cons_succ,
    List.getElem?_map, List.getElem?_range hi, Option.map_some]

theorem towerRealm_get (h : towerRealm.store.get id = .ok o) :
    id = 0 ∧ o = { prototype := some 1, kind := .ordinary }
      ∨ ∃ i : ℕ, id = i + 1 ∧ o = towerObject i := by
  cases id with
  | zero =>
    rw [towerRealm_get_zero] at h
    exact Or.inl ⟨rfl, (Except.ok.inj h).symm⟩
  | succ i =>
    have hi : i + 1 < towerRealm.store.size := Store.lt_size_of_get h
    rw [towerRealm_size] at hi
    rw [towerRealm_get_succ (by omega)] at h
    exact Or.inr ⟨i, rfl, (Except.ok.inj h).symm⟩

/-- The tower is too tall to be followed. -/
theorem checkChain_tower {s : Store} {t : ObjectId}
    (hs : ∀ id o, towerRealm.store.get id = .ok o → s.get id = .ok o)
    (ht : maxChainDepth + 2 < t) : ∀ {k i : ℕ}, k + i = maxChainDepth + 1 →
      s.checkChain t k (some (i + 1))
        = .error (.tooDeep (maxChainDepth + 1) maxChainDepth) := by
  intro k
  induction k with
  | zero =>
    intro i hi
    have hne : i + 1 ≠ t := by omega
    rw [Store.checkChain, if_neg hne]
  | succ k ih =>
    intro i hi
    have hget := hs _ _ (towerRealm_get_succ (i := i) (by omega))
    have hne : i + 1 ≠ t := by omega
    simp only [Store.checkChain, hne, if_false, hget]
    show s.checkChain t k (towerObject i).prototype = _
    rw [towerObject, if_neg (by omega)]
    exact ih (by omega)

theorem towerRealm_holds (h : towerRealm.Holds (.object 0) w) : w = .object 0 ∨ w = .object 1 := by
  induction h with
  | self => exact Or.inl rfl
  | @step id _ w _ inner found refers ih =>
    rcases towerRealm_get found with ⟨rfl, rfl⟩ | ⟨i, rfl, rfl⟩
    · exact Or.inr (List.mem_singleton.mp refers)
    · rcases ih with ih | ih <;> cases ih
      cases inner

theorem towerRealm_sound : towerRealm.Sound where
  references := ⟨nofun, nofun, nofun⟩
  objects := by
    intro id o ho
    rcases towerRealm_get ho with ⟨rfl, rfl⟩ | ⟨i, rfl, rfl⟩ <;> exact ⟨trivial, nofun, nofun⟩
  types := rfl

/-- The tower has a top. -/
theorem towerRealm_chainWithin : ∀ {k i : ℕ}, i + k = maxChainDepth + 1 →
    towerRealm.store.ChainWithin (k + 1) (some (i + 1)) := by
  intro k
  induction k with
  | zero =>
    intro i hi
    refine ⟨towerObject i, towerRealm_get_succ (by omega), ?_⟩
    rw [towerObject, if_pos (by omega)]
    trivial
  | succ k ih =>
    intro i hi
    refine ⟨towerObject i, towerRealm_get_succ (by omega), ?_⟩
    rw [towerObject, if_neg (by omega)]
    exact ih (by omega)

theorem towerRealm_isGrounded : towerRealm.IsGrounded where
  chains := by
    intro id o ho
    rcases towerRealm_get ho with ⟨rfl, rfl⟩ | ⟨i, rfl, rfl⟩
    · exact ⟨_, towerRealm_chainWithin (k := maxChainDepth + 1) (i := 0) (by omega)⟩
    · have hi : i + 1 < towerRealm.store.size := Store.lt_size_of_get ho
      rw [towerRealm_size] at hi
      rw [towerObject]
      split
      · exact ⟨0, trivial⟩
      · exact ⟨_, towerRealm_chainWithin (k := maxChainDepth - i) (i := i + 1) (by omega)⟩
  known p hp := Realm.small_isPrototype hp ▸ ⟨_, towerRealm_get_succ (by decide)⟩

theorem towerRealm_pathsLead : towerRealm.PathsLead :=
  Realm.small_pathsLead ⟨_, towerRealm_get_succ (by decide)⟩

theorem towerRealm_isDataGraph : towerRealm.IsDataGraph (.object 0) where
  found := by
    intro id h
    rcases towerRealm_holds h with h | h <;> cases h
    · exact ⟨_, towerRealm_get_zero⟩
    · exact ⟨_, towerRealm_get_succ (by decide)⟩
  data := by
    intro id o _ ho
    rcases towerRealm_get ho with ⟨rfl, rfl⟩ | ⟨i, rfl, rfl⟩ <;> trivial
  classless := fun _ _ => rfl
  wide := by
    intro n h
    rcases towerRealm_holds h with h | h <;> cases h

theorem towerRealm_keepsNumbers : towerRealm.KeepsNumbers (.object 0) where
  numbers := by
    intro x h
    rcases towerRealm_holds h with h | h <;> cases h
  times := by
    intro id o x _ ho hx
    rcases towerRealm_get ho with ⟨rfl, rfl⟩ | ⟨i, rfl, rfl⟩ <;> cases hx

theorem towerRealm_arraysEnd : towerRealm.ArraysEnd (.object 0) := by
  intro id o _ ho ha
  rcases towerRealm_get ho with ⟨rfl, rfl⟩ | ⟨i, rfl, rfl⟩ <;> cases ha

/-- The object in front of the tower cannot be linked. -/
theorem raises_linkEntry_tower {ρ : References} {e : Envelope} {session : SessionId} {S : Session}
    {n d : ℕ} (hc : towerRealm.CanResume (.object 0) ρ e n)
    (hall : S.IsComplete towerRealm (.object 0) ρ) (hd : n ≤ d) {reference : String}
    (hf : ρ.objects.find? 0 = some reference)
    (h : towerRealm.Linking ρ session S
      (fun _ o o' => o.IsBare towerRealm.known (S.copyOf ρ) o') r') :
    ∃ cause r'', Raises (@linkEntry (engine (d + 1)) session reference
        (towerRealm.writtenEntry ρ { prototype := some 1, kind := .ordinary })) r' cause r''
      ∧ r''.sessions = r'.sessions := by
  let _ : Machine := engine (d + 1)
  obtain ⟨id', reference', hf', hm⟩ := hall.knows _ .self 0 rfl rfl
  obtain rfl : reference = reference' := Option.some.inj (hf.symm.trans hf')
  obtain ⟨cur, hcur, hbare⟩ := h.objects 0 id' _ ⟨reference, hf, hm⟩ towerRealm_get_zero
  have hfresh := hall.fresh 0 id' ⟨reference, hf, hm⟩
  rw [towerRealm_size] at hfresh
  have hentry : Yields (resolveEntry session reference) r' (.object id') r' := by
    refine (yields_sessionAt h.session).bind ?_
    simp only [hm]
    exact Yields.pure _ r'
  obtain ⟨r₁, hy, hg, hs⟩ := yields_resolve_made (w := .object 1) hc hall hd h
    (.step .self rfl towerRealm_get_zero List.mem_cons_self)
  rw [Value.map, hall.host 1 rfl] at hy
  have hget := hg.objects id' cur hcur
  have hcheck := checkChain_tower (s := r₁.store) (t := id') (k := maxChainDepth + 1)
    (i := 0) (h.grows.trans hg).objects (by omega) rfl
  have hother : cur.prototype ≠ some 1 := by
    obtain ⟨p, hp, hcur⟩ := hbare.prototype
    obtain rfl := Realm.small_isPrototype hp
    rw [hcur]
    decide
  have hset : r₁.store.setPrototype id' (some 1)
      = .error (.tooDeep (maxChainDepth + 1) maxChainDepth) := by
    simp [Store.setPrototype, hget, hother, hbare.extensible, bind, Except.bind]
    rw [hcheck]
  refine ⟨.heap (.tooDeep (maxChainDepth + 1) maxChainDepth), r₁, hentry.bind_raises ?_, hs⟩
  exact (hy.bind_raises ((raises_changeStore hset).bind _)).bind _

/-- A session for the object in front of the tower fails. -/
theorem raises_runSession_tower {ρ : References} {e : Envelope} {session : SessionId} {S : Session}
    {n d : ℕ} (hc : towerRealm.CanResume (.object 0) ρ e n) (hd : n ≤ d)
    (hsize : e.entries.size < d + 3)
    (h : towerRealm.Making (.object 0) ρ e session r' S) (hun : S.unfinished = []) :
    ∃ cause r'' S', Raises (@runSession (engine (d + 3)) session e) r' cause r''
      ∧ r''.sessions[session]? = some S' := by
  let _ : Machine := engine (d + 3)
  obtain ⟨r₁, S₁, hroot, h₁, -, hun₁, hk₁⟩ := yields_resolve hc hd h
    (hc.written.isReadable hc.data hc.numbers .self) hun
  obtain ⟨r₂, S₂, hdiscover, h₂, -, -, hk₂⟩ := yields_discover hc hd h₁ (hun₁.trans hun) hk₁ hsize
  have hall := h₂.isComplete hc.written.sound hk₂
  obtain ⟨reference, hf, hentry⟩ := hc.written.entry 0 _ ⟨.self, rfl⟩ towerRealm_get_zero
  -- there is one object to be linked
  have hkeys : S₂.made.keys = [reference] := by
    refine List.perm_singleton.mp ((List.perm_ext_iff_of_nodup S₂.made.nodup
      (List.nodup_singleton _)).mpr fun k => ?_)
    rw [List.mem_singleton]
    constructor
    · intro hmem
      obtain ⟨u, hu⟩ := Table.mem_keys_iff.mp hmem
      obtain ⟨id, id', hid, hf', -⟩ := h₂.inner k u hu
      rcases towerRealm_holds hid.1 with h | h <;> cases h
      · exact Option.some.inj (hf'.symm.trans hf)
      · exact absurd hid.2 (by decide)
    · rintro rfl
      obtain ⟨id', k, hf', hmade⟩ := hall.knows _ .self 0 rfl rfl
      obtain rfl := Option.some.inj (hf'.symm.trans hf)
      exact Table.mem_keys_iff.mpr ⟨_, hmade⟩
  obtain ⟨cause, r₃, hraises, hsessions⟩ := raises_linkEntry_tower hc hall (d := d + 2) (by omega)
    hf h₂.linking
  rw [← hc.written.root] at hroot
  refine ⟨cause, r₃, S₂, ?_, by rw [hsessions]; exact h₂.session⟩
  refine hroot.bind_raises (hdiscover.bind_raises ((yields_sessionAt h₂.session).bind_raises
    (Raises.bind ?_ _)))
  rw [hkeys]
  refine raises_forIn_cons ?_
  simp only [hentry]
  exact hraises.bind _

/-- An object in front of a tower of prototypes is suspended, but never resumed. -/
theorem towerRealm_not_roundTrips : ¬ towerRealm.RoundTrips (.object 0) := by
  rintro ⟨n, hn⟩
  obtain ⟨m, hm⟩ : ∃ m, towerRealm.LeadsFrom m := towerRealm_pathsLead.bound
  obtain ⟨d, hd⟩ : ∃ d, d = n + m + towerRealm.store.size := ⟨_, rfl⟩
  obtain ⟨e, r₁, w, r₂, hserialize, hdeserialize, -⟩ := hn (d + 3) (by omega)
  obtain ⟨ρ, e', events, hy, hwritten⟩ := yields_serialize (d := d + 3) towerRealm_sound
    towerRealm_isDataGraph towerRealm_keepsNumbers (by omega)
  cases hserialize.symm.trans hy
  have hsize := hwritten.size_le towerRealm_isDataGraph
  have hgrows : (towerRealm.giving ρ).Grows { towerRealm.giving ρ with events } :=
    { Realm.Grows.refl (towerRealm.giving ρ) with }
  obtain ⟨cause, r₃, S, hraises, hS⟩ := raises_runSession_tower (d := d)
    ⟨towerRealm_sound, towerRealm_isDataGraph, towerRealm_keepsNumbers, hwritten,
      towerRealm_pathsLead.found, hm⟩ (by omega) (by omega) (Realm.making_start hgrows) rfl
  obtain ⟨r₄, hr⟩ := @raises_deserialize _ _ _ (engine (d + 3)) _ _ hraises hS
  exact hdeserialize.not_raises hr

/-! ## An object that two types claim -/

/-- The prototype of a class is claimed as such, besides the claim of its kind. -/
theorem Realm.one_lt_typeClaims {id class_ : ObjectId} (htypes : r.objectTypes = ObjectType.all)
    (hclass : r.registry.classOf? id = some class_) (htype : o.kind.type?.isSome) :
    1 < (r.objectTypes.filter (r.typeClaims id o.kind)).length := by
  have hclaims : r.typeClaims id o.kind
      = fun type => type == .classPrototype || type.claims o.kind := by
    funext type
    cases type <;> simp [typeClaims, hclass, ObjectType.claims]
  rw [hclaims, htypes]
  cases hk : o.kind <;> first | exact Nat.lt_succ_self 1 | (rw [hk] at htype; cases htype)

section Claimed

variable {id class_ : ObjectId} (htypes : r.objectTypes = ObjectType.all)
  (ho : r.store.get id = .ok o) (hclass : r.registry.classOf? id = some class_)
  (htype : o.kind.type?.isSome)
include htypes ho hclass htype

theorem raises_entryOf_class [Machine] (reference : String) (p : Pass) :
    ∃ types, Raises ((entryOf id reference none).run p) r (.ambiguousEncoder reference types) r := by
  refine ⟨(r.objectTypes.filter (r.typeClaims id o.kind)).map ObjectType.name, ?_⟩
  unfold Raises entryOf
  rw [((yields_objectAt ho).walk p).run_bind, ((yields_realm r).walk p).run_bind,
    if_pos (Realm.one_lt_typeClaims htypes hclass htype)]
  rfl

theorem raises_suspendObject_class [Machine] {p : Pass} (hnode : r.hostPaths.pathOf? id = none)
    (hstop : p.stop = false) (hplaceless : ∀ reference, p.entries.contains reference = false) :
    ∃ reference types r', Raises ((suspendObject id none).run p) r
      (.ambiguousEncoder reference types) r' := by
  obtain ⟨reference, ρ, hreference⟩ : ∃ reference ρ,
      Yields (referenceFor id) r reference (r.giving ρ) := ⟨_, _, rfl⟩
  obtain ⟨types, hentry⟩ := raises_entryOf_class (r := r.giving ρ) htypes ho hclass htype reference
    { p with entries := p.entries.insert reference none }
  refine ⟨reference, types, r.giving ρ, ?_⟩
  unfold Raises suspendObject
  rw [((yields_realm r).walk p).run_bind]
  simp only [hnode]
  rw [(walkYields_get r p).run_bind, ((yields_kindOf ho).walk p).run_bind, hstop, Bool.false_and,
    if_neg Bool.false_ne_true]
  rw [(hreference.walk p).run_bind, (walkYields_get (r.giving ρ) p).run_bind]
  simp only [hplaceless reference, Bool.not_false, if_true]
  rw [(walkYields_modify _ (r.giving ρ) p).run_bind, StateT.run_bind]
  exact hentry.bind _

/-- **What is more than an ordinary object is refused if it is the prototype of a class**: two types
claim it. -/
theorem raises_serialize_class {d : ℕ} (hnode : r.hostPaths.pathOf? id = none) :
    ∃ reference types r', Raises (@serialize (engine (d + 1)) (.object id) {}) r
      (.ambiguousEncoder reference types) r' := by
  let _ : Machine := engine d
  obtain ⟨reference, types, r', hobject⟩ := raises_suspendObject_class htypes ho hclass htype hnode
    (p := { entries := (∅ : Table String Entry).map some, stop := false }) rfl fun _ => rfl
  have hwalk : Raises (@walkFrom (engine (d + 1)) {} false (.object id) none) r
      (.ambiguousEncoder reference types) r' := Raises.bind hobject _
  exact ⟨reference, types, (hwalk.bind _).noted (Yields.pure "serialize" r')⟩

end Claimed

/-- Everything in the graph of the value is data or belongs to the host, and ordinary objects are no
prototypes of classes. -/
structure Realm.IsPlainGraph (r : Realm) (v : Value) : Prop where
  found : ∀ id, r.Holds v (.object id) → ∃ o, r.store.get id = .ok o
  data : ∀ id o, r.Inner v id → r.store.get id = .ok o → o.kind.IsData r.store
  ordinary : ∀ id o, r.Inner v id → r.store.get id = .ok o → o.kind = .ordinary →
    r.registry.classOf? id = none
  wide : ∀ n, r.Holds v (.bigint n) → Number.fitsWide n = true

/-- Any graph of data is one, with no class about. -/
theorem Realm.IsDataGraph.isPlainGraph (h : r.IsDataGraph v) : r.IsPlainGraph v :=
  ⟨h.found, h.data, fun id _ hid _ _ => h.classless id hid, h.wide⟩

/-- An empty array, and the object of the host. -/
def bareObjects : Array Object := #[
    { prototype := some 1, kind := .array
      properties := Table.ofList [(.length, .data (.number 0) true false false)] },
    { prototype := none, kind := .ordinary }]

/-- The array is registered as the prototype of a class. -/
def enrolledRealm : Realm where
  __ := Realm.small bareObjects 1
  registry := ({} : Registry).registerPrototype 0 1

theorem enrolledRealm_get (h : enrolledRealm.store.get id = .ok o) :
    id = 0 ∧ o = enrolledRealm.store.objects[0] ∨ id = 1 ∧ o = enrolledRealm.store.objects[1] := by
  have hid : id < 2 := Store.lt_size_of_get h
  interval_cases id <;> cases h
  · exact .inl ⟨rfl, rfl⟩
  · exact .inr ⟨rfl, rfl⟩

theorem enrolledRealm_holds (h : enrolledRealm.Holds (.object 0) w) :
    w = .object 0 ∨ w = .object 1 ∨ w = .number 0 := by
  have hvalues : enrolledRealm.store.objects.toList.flatMap Object.values
      = [.object 1, .number 0] := rfl
  rcases h.eq_or_mem with rfl | hw
  · exact .inl rfl
  · rw [hvalues] at hw
    exact .inr (by simpa using hw)

theorem enrolledRealm_sound : enrolledRealm.Sound where
  references := ⟨nofun, nofun, nofun⟩
  objects := by
    intro id o ho
    rcases enrolledRealm_get ho with ⟨rfl, rfl⟩ | ⟨rfl, rfl⟩
    · refine ⟨trivial, ?_, fun _ => ⟨_, _, _, rfl⟩⟩
      intro d hd
      fin_cases hd
      trivial
    · exact ⟨trivial, nofun, nofun⟩
  types := rfl

theorem enrolledRealm_isGrounded : enrolledRealm.IsGrounded where
  chains := by
    intro id o ho
    refine ⟨1, ?_⟩
    rcases enrolledRealm_get ho with ⟨rfl, rfl⟩ | ⟨rfl, rfl⟩
    · exact ⟨_, rfl, trivial⟩
    · trivial
  known p hp := by
    have hknown : p ∈ (Realm.small bareObjects 1).known.prototypes := hp
    obtain rfl := Realm.small_isPrototype hknown
    exact ⟨_, rfl⟩

/-- Paths lead to their objects whatever is registered. -/
theorem enrolledRealm_pathsLead : enrolledRealm.PathsLead := by
  have hsmall : (Realm.small bareObjects 1).PathsLead := Realm.small_pathsLead ⟨_, rfl⟩
  refine ⟨hsmall.found, fun id path hpath => ?_⟩
  obtain ⟨n, hn⟩ := hsmall.leads id path hpath
  exact ⟨n, fun depth hdepth r' hg => hn depth hdepth r' { hg with }⟩

theorem enrolledRealm_isPlainGraph : enrolledRealm.IsPlainGraph (.object 0) where
  found := by
    intro id h
    rcases enrolledRealm_holds h with h | h | h <;> cases h <;> exact ⟨_, rfl⟩
  data := by
    intro id o _ ho
    rcases enrolledRealm_get ho with ⟨rfl, rfl⟩ | ⟨rfl, rfl⟩ <;> trivial
  ordinary := by
    intro id o _ ho hordinary
    rcases enrolledRealm_get ho with ⟨rfl, rfl⟩ | ⟨rfl, rfl⟩
    · cases hordinary
    · rfl
  wide := by
    intro n h
    rcases enrolledRealm_holds h with h | h | h <;> cases h

theorem enrolledRealm_keepsNumbers : enrolledRealm.KeepsNumbers (.object 0) where
  numbers := by
    intro x h
    unfold IsKept
    rcases enrolledRealm_holds h with h | h | h <;> cases h
    decide +kernel
  times := by
    intro id o x _ ho hx
    rcases enrolledRealm_get ho with ⟨rfl, rfl⟩ | ⟨rfl, rfl⟩ <;> cases hx

theorem enrolledRealm_arraysEnd : enrolledRealm.ArraysEnd (.object 0) := by
  intro id o _ ho ha
  rcases enrolledRealm_get ho with ⟨rfl, rfl⟩ | ⟨rfl, rfl⟩
  · intro key d index x w e c hmem hindex _ hlength
    fin_cases hmem
    cases hindex
  · cases ha

/-- The array is refused at every depth. -/
theorem enrolledRealm_not_roundTrips : ¬ enrolledRealm.RoundTrips (.object 0) := by
  rintro ⟨n, hn⟩
  obtain ⟨e, r₁, w, r₂, hserialize, -⟩ := hn (n + 1) (Nat.le_succ n)
  have harray : enrolledRealm.store.get 0 = .ok bareObjects[0] := rfl
  have hclass : enrolledRealm.registry.classOf? 0 = some 1 := rfl
  obtain ⟨reference, types, r', hraises⟩ := raises_serialize_class (d := n) rfl harray hclass rfl rfl
  exact hserialize.not_raises hraises

/-- **Not every graph comes back**: that of the object in front of the tower does not, though there is
no class about, and that of the registered array does not, though its chains are short. -/
theorem not_yields_roundTrip :
    (towerRealm.Sound ∧ towerRealm.IsGrounded ∧ towerRealm.PathsLead
      ∧ towerRealm.IsDataGraph (.object 0) ∧ towerRealm.KeepsNumbers (.object 0)
      ∧ towerRealm.ArraysEnd (.object 0) ∧ ¬ towerRealm.RoundTrips (.object 0))
    ∧ (enrolledRealm.Sound ∧ enrolledRealm.IsGrounded ∧ enrolledRealm.PathsLead
      ∧ enrolledRealm.IsPlainGraph (.object 0) ∧ enrolledRealm.KeepsNumbers (.object 0)
      ∧ enrolledRealm.ArraysEnd (.object 0) ∧ enrolledRealm.HasShortChains (.object 0)
      ∧ ¬ enrolledRealm.RoundTrips (.object 0)) := by
  have hshort : enrolledRealm.HasShortChains (.object 0) :=
    ⟨2, 2, by decide, enrolledRealm_isGrounded.chainsWithin _⟩
  exact ⟨⟨towerRealm_sound, towerRealm_isGrounded, towerRealm_pathsLead, towerRealm_isDataGraph,
      towerRealm_keepsNumbers, towerRealm_arraysEnd, towerRealm_not_roundTrips⟩,
    enrolledRealm_sound, enrolledRealm_isGrounded, enrolledRealm_pathsLead,
    enrolledRealm_isPlainGraph, enrolledRealm_keepsNumbers, enrolledRealm_arraysEnd, hshort,
    enrolledRealm_not_roundTrips⟩

end Stasis
