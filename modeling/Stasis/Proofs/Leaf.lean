import Mathlib
import Stasis.Resume
import Stasis.Proofs.Growth
import Stasis.Proofs.Suspended

/-!
# Values that are read without making an object

* `Realm.IsReadable`: a value that the envelope of a graph may hold.
* `yields_resolve_primitive`: a primitive value is read as what it was.
* `yields_resolve_host`: an object of the host is found again by its path.
-/

namespace Stasis

variable {r r' b : Realm} {v w : Value} {ρ : References} {session : SessionId}

/-- The value may stand in the envelope of `v`: numbers are kept, and symbols have references. -/
def Realm.IsReadable (r : Realm) (v : Value) (ρ : References) : Value → Prop
  | .number x => IsKept x
  | .bigint n => Number.fitsWide n = true
  | .symbol id => r.symbols.keyFor? id = none → ∃ reference, ρ.symbols.find? id = some reference
  | .object id => r.Holds v (.object id)
  | _ => True

/-- What is in the graph of the value is readable. -/
theorem Realm.IsWrittenAs.isReadable (hdata : r.IsDataGraph v) (hnumbers : r.KeepsNumbers v)
    {e : Envelope} (he : r.IsWrittenAs v ρ e) (hw : r.Holds v w) : r.IsReadable v ρ w := by
  cases w with
  | number x => exact hnumbers.numbers x hw
  | bigint n => exact hdata.wide n hw
  | symbol id => exact he.symbol id (Or.inl hw)
  | object id => exact hw
  | _ => trivial

/-- What an object in the graph refers to is readable, its keys among it. -/
theorem Realm.IsWrittenAs.isReadable_refers (hdata : r.IsDataGraph v)
    (hnumbers : r.KeepsNumbers v) {e : Envelope} (he : r.IsWrittenAs v ρ e) {id : ObjectId}
    {o : Object} (hid : r.Inner v id) (ho : r.store.get id = .ok o) (hw : w ∈ o.refers) :
    r.IsReadable v ρ w := by
  rcases List.mem_append.mp hw with hw | hw
  · obtain ⟨key, hkey, rfl⟩ := List.mem_map.mp hw
    cases key with
    | text s => trivial
    | symbol s => exact he.symbol s (Or.inr ⟨id, o, hid, ho, hkey⟩)
  · exact he.isReadable hdata hnumbers (.step hid.1 hid.2 ho hw)

/-! ## Primitive values -/

theorem yields_sharedSymbol {key : String} {id : SymbolId}
    (h : r.symbols.byKey.find? key = some id) : Yields (sharedSymbol key) r (.symbol id) r := by
  have hs : r.symbols.shared key = (id, r.symbols) := by
    unfold Symbols.shared
    rw [h]
  unfold sharedSymbol
  refine (yields_modifyGet _ r).trans ?_
  simp only [hs]

theorem yields_resumedSymbol {reference : String} {id : SymbolId} {description : Option String}
    (h : r.references.symbol? reference = some id) :
    Yields (resumedSymbol reference description) r (.symbol id) r := by
  unfold resumedSymbol
  refine (yields_modifyGet _ r).trans ?_
  simp only [h]

/-- The key of a shared symbol leads to it. -/
theorem find?_of_keyFor? {s : Symbols} {id : SymbolId} {key : String} (h : s.keyFor? id = some key) :
    s.byKey.find? key = some id := by
  unfold Symbols.keyFor? at h
  obtain ⟨⟨k, other⟩, hfind, rfl⟩ := Option.map_eq_some_iff.mp h
  have hid : other = id := by simpa using List.find?_some hfind
  subst hid
  exact Table.find?_eq_some_iff.mpr (List.mem_of_find?_eq_some hfind)

section Primitive

variable [Machine]

theorem yields_resolveTagged_number {x : Float} (hx : IsKept x) (r : Realm) :
    Yields (resolveTagged session (taggedNumber x)) r (.number x) r := by
  unfold IsKept at hx
  generalize taggedNumber x = t at hx
  cases t with
  | simple j =>
    cases j with
    | number n =>
      obtain rfl := Option.some.inj hx
      exact Yields.pure _ r
    | _ => cases hx
  | nan | infinity | negativeInfinity | negativeZero =>
    obtain rfl := Option.some.inj hx
    exact Yields.pure _ r
  | _ => cases hx

/-- **A primitive value is read as what it was**, and nothing changes. -/
theorem yields_resolve_primitive (hρ : ρ.Sound) (hb : (r.giving ρ).Grows r')
    (hw : r.IsReadable v ρ w) (ho : w.isObject = false) :
    Yields (resolveTagged session (r.written ρ w)) r' w r' := by
  cases w with
  | number x => exact yields_resolveTagged_number hw r'
  | bigint n =>
    have hn : Number.readInteger 10 Number.minWide Number.maxWide (Number.integerText n).toList
        = some n := Number.readInteger_integerText (of_decide_eq_true hw)
    show Yields (resolveTagged session (.bigint (Number.integerText n))) r' _ r'
    unfold resolveTagged
    simp only [hn]
    exact Yields.pure _ r'
  | symbol id =>
    simp only [Realm.written, Realm.writtenSymbol]
    cases hk : r.symbols.keyFor? id with
    | some key => exact yields_sharedSymbol (hb.shared key id (find?_of_keyFor? hk))
    | none =>
      obtain ⟨reference, hr⟩ := hw hk
      simp only [hr, Option.getD_some]
      exact yields_resumedSymbol (hb.symbols reference id (hρ.symbols id reference hr))
  | object id => cases ho
  | _ => exact Yields.pure _ r'

end Primitive

theorem yields_environmentAt {env : Environment} {id : EnvId}
    (henv : r.environments.get? id = some env) : Yields (environmentAt id) r env r := by
  refine (yields_get r).bind ?_
  rw [henv]
  exact Yields.pure _ r

/-- An environment that has the name itself is the first that holds it. -/
theorem yields_holderOf {name : String} {env : Environment} {id : EnvId}
    (henv : r.environments.get? id = some env) (ho : env.object = none)
    (hcell : env.cells.contains name = true) : Yields (holderOf id name) r id r := by
  have hchain : ∃ rest, r.environments.chain id = id :: rest := by
    rw [Environments.chain]
    exact ⟨_, rfl⟩
  obtain ⟨rest, hchain⟩ := hchain
  have hholder : r.holder? id name = .ok (some id) := by
    simp only [Realm.holder?, hchain, Realm.holderIn?, Realm.holdsName, henv, ho, hcell]
    rfl
  have hfound : Yields (ofRealm fun r => r.holder? id name) r (some id) r := by
    refine (yields_get r).bind ?_
    simp only [hholder]
    exact Yields.pure _ r
  exact hfound.bind (Yields.pure _ r)

/-- A variable of the environment itself is read. -/
theorem yields_readVariable [Machine] {name : String} {env : Environment} {c : Cell}
    {id : EnvId} (henv : r.environments.get? id = some env) (ho : env.object = none)
    (hcell : env.cells.find? name = some c) (hi : c.initialized = true) :
    Yields (readVariable id name) r c.value r := by
  have hcontains : env.cells.contains name = true := by rw [Table.contains, hcell, Option.isSome_some]
  obtain ⟨value, initialized, mutable⟩ := c
  cases hi
  refine (yields_holderOf henv ho hcontains).bind ((yields_environmentAt henv).bind ?_)
  rw [ho, hcell]
  exact Yields.pure _ r

/-- A path that is the name of a variable leads to what the variable holds. -/
theorem yields_resolvePath {path name : String} {node : Script.NodeId} {span : Script.Span}
    {env : Environment} {c : Cell} {depth : ℕ}
    (hp : Script.parseExpression path recordedLabel = .ok (.ident name node span))
    (henv : r.environments.get? r.scriptEnv = some env) (ho : env.object = none)
    (hcell : env.cells.find? name = some c) (hi : c.initialized = true) :
    Yields (@resolvePath (engine (depth + 1)) path) r c.value r := by
  unfold resolvePath
  rw [hp]
  exact (yields_get r).bind (@yields_readVariable r (engine depth) _ _ _ _ henv ho hcell hi)

/-- **An object of the host is found again by its path.** -/
theorem yields_resolve_host (session : SessionId) {n depth : ℕ} (hpaths : r.LeadsFrom n)
    (hdepth : n ≤ depth) (hle : r.references.Le ρ) (hb : (r.giving ρ).Grows r') {id : ObjectId}
    (hid : r.hostPaths.contains id = true) :
    ∃ r'', Yields (@resolveTagged (engine depth) session (r.written ρ (.object id))) r'
        (.object id) r'' ∧ r'.Grows r'' ∧ r''.sessions = r'.sessions := by
  obtain ⟨path, hpath⟩ := Table.mem_keys_iff.mp (Table.contains_iff.mp hid)
  have hpath' : r.hostPaths.pathOf? id = some path := hpath
  have h := hpaths id path hpath' depth hdepth r' ((Realm.grows_giving hle).trans hb)
  simp only [Realm.written, hpath']
  exact h

end Stasis
