import Mathlib
import Stasis.Proofs.Growth
import Stasis.Proofs.Leaf
import Stasis.Proofs.Repeated
import Stasis.Proofs.Upheld

/-!
# Realms that are left undisturbed

Reading an envelope makes new objects and links them. As long as no function has to be made, nothing
that was there before is written to, whatever the envelope is and however its reading ends.

* `Realm.Undisturbed`: what a walk through old objects meets is what it was.
* `Realm.PathsAreQuiet`: paths are followed without running scripts.
* `Envelope.IsQuiet`: an envelope without functions, whose paths are those that were recorded.
* `Realm.Reading`: what a session leaves as it was, and what it makes.
* `Reading.push`, `Reading.set`, `Reading.shared`, `Reading.bind`, `Reading.getsOn`: one thing that a
  session does.
-/

namespace Stasis

namespace Realm

/-- Everything that a walk through the objects of the first realm looks at is the same in the second
one, and references that were given stay given. -/
structure Undisturbed (r r' : Realm) : Prop where
  objects : ∀ id o, r.store.get id = .ok o → r'.store.get id = .ok o
  symbols : ∀ id < r.symbols.descriptions.size, r.AgreesOn r' id
  count : r.symbols.descriptions.size ≤ r'.symbols.descriptions.size
  references : r.references.Le r'.references
  registry : r'.registry = r.registry
  hostPaths : r'.hostPaths = r.hostPaths
  types : r'.objectTypes = r.objectTypes

variable {r r' r'' b : Realm} {v : Value}

theorem Undisturbed.refl (r : Realm) : r.Undisturbed r :=
  ⟨fun _ _ h => h, fun _ _ => ⟨rfl, rfl⟩, le_rfl, .refl _, rfl, rfl, rfl⟩

theorem Undisturbed.trans (h : r.Undisturbed r') (h' : r'.Undisturbed r'') : r.Undisturbed r'' where
  objects id o ho := h'.objects id o (h.objects id o ho)
  symbols id hid :=
    have hfirst := h.symbols id hid
    have hthen := h'.symbols id (hid.trans_le h.count)
    ⟨hthen.1.trans hfirst.1, hthen.2.trans hfirst.2⟩
  count := h.count.trans h'.count
  references := h.references.trans h'.references
  registry := h'.registry.trans h.registry
  hostPaths := h'.hostPaths.trans h.hostPaths
  types := h'.types.trans h.types

/-- The symbols in the graph of the value, and those that are keys of its objects, are symbols of
the realm. -/
def HasSymbols (r : Realm) (v : Value) : Prop :=
  ∀ s, (r.Holds v (.symbol s) ∨ ∃ id o, r.Inner v id ∧ r.store.get id = .ok o ∧
    Key.symbol s ∈ o.properties.keys) → s < r.symbols.descriptions.size

/-- Where nothing is disturbed, every graph is what it was. -/
theorem Undisturbed.mirrors (h : r.Undisturbed r') (hv : r.HasSymbols v) : r.Mirrors v r' where
  objects := h.objects
  symbols s hs := h.symbols s (hv s (.inl hs))
  keys id o s hid ho hkey := h.symbols s (hv s (.inr ⟨id, o, hid, ho, hkey⟩))
  hostPaths := h.hostPaths
  registry := h.registry
  types := h.types

/-- Following a recorded path runs no script: it may add something, and changes nothing that is
there. Which object it leads to does not matter here. -/
def PathsAreQuiet (r : Realm) : Prop :=
  ∀ id path, r.hostPaths.pathOf? id = some path → ∀ depth r', r.Grows r' → ∀ out r'',
    r'.run (@resolvePath (engine depth) path) = (out, r'') → out ≠ .error .outOfFuel →
      r'.Grows r'' ∧ r'.Undisturbed r'' ∧ r''.sessions = r'.sessions

end Realm

/-! ## Quiet envelopes -/

/-- A path in the value is one that was recorded. -/
def Tagged.IsQuiet (known : HostPaths) (t : Tagged) : Prop :=
  ∀ path, t = .hostObject path → ∃ id, known.pathOf? id = some path

/-- The payload is that of a function, or that of the prototype of a class. -/
def Payload.isOfFunction : Payload → Bool
  | source .. | member .. | classPrototype _ => true
  | _ => false

/-- No function is made for the payload. -/
structure Payload.IsQuiet (known : HostPaths) (p : Payload) : Prop where
  kind : p.isOfFunction = false
  values : ∀ t ∈ p.values, t.IsQuiet known

/-- No function is made for the entry. -/
structure Entry.IsQuiet (known : HostPaths) (e : Entry) : Prop where
  mentions : ∀ t ∈ e.mentions, t.IsQuiet known
  payload : ∀ type p, type.name = e.objectType → Payload.ofJson? type e.payload = some p →
    p.IsQuiet known

/-- No function is made for the entries. -/
def AreQuiet (known : HostPaths) (entries : Table String Entry) : Prop :=
  ∀ reference e, entries.find? reference = some e → e.IsQuiet known

/-- No function is made for the envelope. -/
structure Envelope.IsQuiet (known : HostPaths) (e : Envelope) : Prop where
  root : e.root.IsQuiet known
  entries : AreQuiet known e.entries

/-! ## Symbols -/

namespace Symbols

variable {s : Symbols} {id : SymbolId}

/-- A symbol that was there keeps its description. -/
theorem getElem?_of_prefix {s' : Symbols} {d : Option String}
    (h : s.descriptions.toList <+: s'.descriptions.toList) (hd : s.descriptions[id]? = some d) :
    s'.descriptions[id]? = some d := by
  rw [← Array.getElem?_toList] at hd ⊢
  exact Stasis.getElem?_of_prefix h hd

/-- The number of a new symbol is no one else's. -/
theorem keyFor?_shared (key : String) (hid : id < s.descriptions.size) :
    (s.shared key).2.keyFor? id = s.keyFor? id := by
  unfold shared
  cases hk : s.byKey.find? key with
  | some _ => rfl
  | none =>
    have hnew : key ∉ s.byKey.keys := Table.find?_eq_none_iff.mp hk
    have hother : s.descriptions.size ≠ id := fun h => absurd h (Nat.ne_of_gt hid)
    simp only [create, keyFor?]
    rw [Table.entries_insert_of_notMem hnew, List.find?_append]
    simp [hother]

end Symbols

/-- What has a reference keeps it, and what goes by a reference keeps going by it. -/
theorem References.le_bindSymbol (ρ : References) (reference : String) (id : SymbolId) :
    ρ.Le (ρ.bindSymbol reference id) where
  objects _ _ h := h
  symbols id' reference' h := by
    rw [bindSymbol, Table.find?_insertNew]
    split
    · next he => rw [he, h, Option.getD_some]
    · exact h
  byReference reference' id' h := by
    rw [bindSymbol, Table.find?_insertNew]
    split
    · next he => rw [he, h, Option.getD_some]
    · exact h

/-! ## What a session leaves as it was -/

/-- If the value is an object, it was made since. -/
def Realm.IsNew (b : Realm) (v : Value) : Prop := ∀ id, v = .object id → b.store.size ≤ id

/-- A session that began in the realm `b` reads the entries: what was in `b` is as it was, and every
object that the session has made is new. -/
structure Realm.Reading (b : Realm) (entries : Table String Entry) (r : Realm) : Prop where
  grows : b.Grows r
  keys : ∀ id < b.symbols.descriptions.size, r.symbols.keyFor? id = b.symbols.keyFor? id
  references : b.references.Le r.references
  registry : r.registry = b.registry
  session : ∃ S : Session, r.sessions = b.sessions.push S ∧ S.entries = entries ∧
    ∀ reference v, S.made.find? reference = some v → b.IsNew v

namespace Realm.Reading

variable {b r r' : Realm} {entries : Table String Entry}

theorem count (h : b.Reading entries r) :
    b.symbols.descriptions.size ≤ r.symbols.descriptions.size := by
  by_contra hlt
  obtain ⟨d, hd⟩ : ∃ d, b.symbols.descriptions[r.symbols.descriptions.size]? = some d :=
    ⟨_, Array.getElem?_eq_getElem (not_le.mp hlt)⟩
  have hkept := h.grows.descriptions _ d hd
  rw [Array.getElem?_eq_none le_rfl] at hkept
  cases hkept

theorem undisturbed (h : b.Reading entries r) : b.Undisturbed r where
  objects := h.grows.objects
  symbols id hid := by
    have hdescription := h.grows.descriptions id _ (Array.getElem?_eq_getElem hid)
    refine ⟨h.keys id hid, ?_⟩
    rw [Symbols.description?, Symbols.description?, hdescription, Array.getElem?_eq_getElem hid]
  count := h.count
  references := h.references
  registry := h.registry
  hostPaths := h.grows.hostPaths
  types := h.grows.types

/-- A session begins. -/
theorem begin (b : Realm) (entries : Table String Entry) :
    b.Reading entries { b with sessions := b.sessions.push { entries } } where
  grows := (Grows.refl b).withSessions _
  keys _ _ := rfl
  references := .refl _
  registry := rfl
  session := ⟨_, rfl, rfl, nofun⟩

/-- An object is added. -/
theorem push (h : b.Reading entries r) (o : Object) :
    b.Reading entries { r with store := ⟨r.store.objects.push o⟩ } :=
  { h with grows := h.grows.push o }

/-- A new object is changed. -/
theorem set (h : b.Reading entries r) {id : ObjectId} (hid : b.store.size ≤ id) (o : Object) :
    b.Reading entries { r with store := r.store.set id o } :=
  { h with grows := h.grows.setFresh hid o }

/-- The symbol of a key is asked for. -/
theorem shared (h : b.Reading entries r) (key : String) :
    b.Reading entries { r with symbols := (r.symbols.shared key).2 } := by
  refine ⟨{ h.grows with descriptions := ?_, shared := ?_ }, fun id hid => ?_, h.references,
    h.registry, h.session⟩
  · exact fun id d hd => Symbols.getElem?_of_prefix (r.symbols.descriptions_shared key)
      (h.grows.descriptions id d hd)
  · intro k id hk
    have hkept := h.grows.shared k id hk
    show (r.symbols.shared key).2.byKey.find? k = _
    unfold Symbols.shared
    cases hkey : r.symbols.byKey.find? key with
    | some _ => exact hkept
    | none =>
      have hother : key ≠ k := fun he => by
        rw [he, hkept] at hkey
        cases hkey
      exact (Table.find?_insert ..).trans ((if_neg hother).trans hkept)
  · rw [Symbols.keyFor?_shared key (hid.trans_le h.count), h.keys id hid]

/-- A symbol is made for a reference that is read for the first time. -/
theorem bind (h : b.Reading entries r) (reference : String) (description : Option String) :
    b.Reading entries { r with
      symbols := (r.symbols.create description).2
      references := r.references.bindSymbol reference (r.symbols.create description).1 } := by
  have hle := r.references.le_bindSymbol reference (r.symbols.create description).1
  refine ⟨{ h.grows with descriptions := ?_, symbols := ?_ }, h.keys, h.references.trans hle,
    h.registry, h.session⟩
  · exact fun id d hd => Symbols.getElem?_of_prefix (r.symbols.descriptions_create description)
      (h.grows.descriptions id d hd)
  · exact fun reference' id hid => hle.byReference _ id (h.grows.symbols reference' id hid)

/-- The session gets on, and makes new objects only. -/
theorem getsOn (h : b.Reading entries r) {f : Session → Session}
    (hentries : ∀ S, (f S).entries = S.entries)
    (hmade : ∀ S reference v, (f S).made.find? reference = some v →
      S.made.find? reference = some v ∨ b.IsNew v) :
    b.Reading entries { r with sessions := r.sessions.modify b.sessions.size f } := by
  obtain ⟨S, hS, rfl, hnew⟩ := h.session
  refine ⟨h.grows.withSessions _, h.keys, h.references, h.registry, f S, ?_, hentries S, ?_⟩
  · show r.sessions.modify _ f = _
    rw [hS]
    refine Array.ext_getElem? fun i => ?_
    rw [Array.getElem?_modify]
    grind
  · intro reference v hv
    exact (hmade S reference v hv).elim (hnew reference v) id

/-- A path is followed. -/
theorem follows (h : b.Reading entries r) (hgrows : r.Grows r') (hquiet : r.Undisturbed r')
    (hsessions : r'.sessions = r.sessions) : b.Reading entries r' where
  grows := h.grows.trans hgrows
  keys id hid := (hquiet.symbols id (hid.trans_le h.count)).1.trans (h.keys id hid)
  references := h.references.trans hquiet.references
  registry := hquiet.registry.trans h.registry
  session := by rw [hsessions]; exact h.session

end Realm.Reading

end Stasis
