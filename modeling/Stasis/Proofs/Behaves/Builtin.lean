import Mathlib
import Stasis.Builtin.Dispatch
import Stasis.Proofs.Behaves.Resume

/-!
# Built-in functions behave

* `behaves_applyObject`, …, `behaves_applyRuntime`: the functions of each kind.
* `behaves_applyNative`: any built-in function.
-/

namespace Stasis

variable {α : Type} {K : Store → Prop}

/-! ## Invocations -/

@[grind ←]
theorem behaves_functionOf? (v : Value) : Behaves (functionOf? v) := by
  unfold functionOf?
  grind -linarith

theorem leaves_functionOf? (v : Value) : Leaves K (functionOf? v) fun f s => s.IsHalf f := by
  unfold functionOf?
  split
  · next f =>
    refine Leaves.bind behaves_get.since leaves_get fun r => .pure fun s hs => ?_
    split
    · next hf => exact (hs.imp fun s₀ _ h => Store.isHalf_some.mpr (h.1 ▸ hf)).isHalf
    · exact Store.isHalf_none
  · exact .pure fun _ _ => Store.isHalf_none

@[grind ←]
theorem behaves_throwNotFunction (v : Value) : Behaves (throwNotFunction v : Run α) := by
  unfold throwNotFunction
  grind -linarith

section Machine

variable [Machine] [SafeMachine]

/-! ## Arrays -/

@[grind ←]
theorem behaves_relativeArgument (length default : ℕ) (v : Value) :
    Behaves (relativeArgument length default v) := by
  unfold relativeArgument
  grind -linarith

@[grind ←]
theorem behaves_setLength (array : Value) (length : ℕ) : Behaves (setLength array length) := by
  unfold setLength
  grind -linarith

@[grind ←]
theorem behaves_joinItems (separator : String) (items : List Value) :
    Behaves (joinItems separator items) := by
  unfold joinItems
  grind -linarith

@[grind ←]
theorem behaves_mapItems (c : Invocation) : Behaves (mapItems c) := by
  unfold mapItems
  grind -linarith

@[grind ←]
theorem behaves_constructArray (args : List Value) : Behaves (constructArray args) := by
  unfold constructArray
  grind -linarith

@[grind ←]
theorem behaves_pushItems (array : Value) (items : List Value) :
    Behaves (pushItems array items) := by
  unfold pushItems
  grind -linarith

@[grind ←]
theorem behaves_popItem (array : Value) : Behaves (popItem array) := by
  unfold popItem
  grind -linarith

@[grind ←]
theorem behaves_applyArray (op : ArrayNative) (c : Invocation) : Behaves (applyArray op c) := by
  unfold applyArray
  cases op <;> grind -linarith

/-! ## Buffers -/

omit [Machine] [SafeMachine] in
@[grind ←]
theorem behaves_bufferReceiver (v : Value) : Behaves (bufferReceiver v) := by
  unfold bufferReceiver
  grind -linarith

omit [Machine] [SafeMachine] in
@[grind ←]
theorem behaves_windowReceiver (v : Value) : Behaves (windowReceiver v) := by
  unfold windowReceiver
  grind -linarith

omit [Machine] [SafeMachine] in
/-- What a function of buffers is called on. -/
theorem leaves_bufferReceiver (v : Value) :
    Leaves K (bufferReceiver v) fun p s => s.Since fun s => s.HasKind p.1 (.buffer p.2) := by
  unfold bufferReceiver
  extract_lets refuse
  have hrefuse : ∀ {K : Store → Prop},
      Leaves K refuse fun p s => s.Since fun s => s.HasKind p.1 (.buffer p.2) :=
    (behaves_display v).bind_leaves fun _ => leaves_of_not_yields fun _ _ _ => not_yields_throwNew
  clear_value refuse
  split
  · next id =>
    refine Leaves.bind (behaves_kindOf id).since (leaves_kindOf id) fun kind => ?_
    split
    · exact .pure fun s hs => hs.imp fun _ _ h => h.1
    · exact hrefuse
  · exact hrefuse

omit [Machine] [SafeMachine] in
/-- A buffer takes a step, if the object is one. -/
theorem behavesSince_changeBuffer {id : ObjectId} {f : Buffer → Buffer}
    (hstep : ∀ (s : Store) b, s.Since K → s.HasKind id (.buffer b) → b.Step (f b)) :
    BehavesSince K (changeBuffer id f) := by
  unfold changeBuffer
  refine behavesSince_kindOf_bind (fun k => ?_) fun r k hs hkind => ?_
  · split
    · exact behavesSince_setKind fun _ hs => absurd hs not_since_false
    · exact (Behaves.pure _).since
  · split
    · next b => exact evolves_setKind hs.sound hkind (.buffer (hstep r.store b hs hkind))
    · exact .refl hs.sound

@[grind ←]
theorem behaves_toIndex (v : Value) (what : String) : Behaves (toIndex v what) := by
  unfold toIndex
  grind -linarith

@[grind ←]
theorem behaves_maxLengthOption (options : Value) : Behaves (maxLengthOption options) := by
  unfold maxLengthOption
  grind -linarith

/-- The length of a new buffer is checked against the limit that is given. -/
@[grind ←]
theorem behaves_constructBuffer (c : Invocation) : Behaves (constructBuffer c) := by
  unfold constructBuffer
  refine Behaves.guard (behaves_throwType _) fun _ => ?_
  refine (behaves_toIndex _ _).bind fun index => (behaves_checkSize _ _).bind fun length => ?_
  refine (behaves_maxLengthOption _).bind fun maxLength => BehavesSince.behaves ?_
  refine .unless (behaves_throwRange _) (fun _ _ => not_yields_throwNew) fun hlimit => Behaves.since ?_
  have hfits : (Kind.buffer { Buffer.ofLength length with maxLength }).Sound := by
    intro max hmax
    simp only at hmax
    rw [hmax] at hlimit
    exact (Buffer.size_resized {} length).trans_le (by simpa using hlimit)
  exact behaves_get.bind fun r => (behaves_prototypeFrom _ _).bind fun prototype =>
    (behaves_allocateKind _ hfits rfl).bind fun id => Behaves.pure _

/-- **The length of a buffer changes.** Scripts that run in between leave its limit as it was. -/
@[grind ←]
theorem behaves_resizeBuffer (c : Invocation) : Behaves (resizeBuffer c) := by
  unfold resizeBuffer
  refine (behaves_bufferReceiver _).bind_since (leaves_bufferReceiver _) fun receiver => ?_
  obtain ⟨id, b⟩ := receiver
  dsimp only
  split
  · exact (behaves_throwType _).since
  · next max hmax =>
    refine .unless (behaves_throwType _) (fun _ _ => not_yields_throwNew) fun _ => ?_
    refine (behaves_toIndex _ _).since.bind fun index => (behaves_checkSize _ _).since.bind fun length => ?_
    refine .unless (behaves_throwRange _) (fun _ _ => not_yields_throwNew) fun hle => ?_
    refine BehavesSince.bind (behavesSince_changeBuffer fun s b₁ hs hb₁ => .resized length ?_)
      fun _ => (Behaves.pure _).since
    obtain ⟨k, hk, hbecomes, -⟩ := hs.hasKind
    obtain ⟨b', rfl, hb'⟩ := hbecomes.buffer
    cases hk.eq hb₁
    rw [hb'.maxLength, hmax]
    rintro _ ⟨⟩
    exact not_lt.mp hle

@[grind ←]
theorem behaves_transferLength (b : Buffer) (v : Value) : Behaves (transferLength b v) := by
  unfold transferLength
  grind -linarith

omit [SafeMachine] in
/-- The length that a transferred buffer is given is checked against its limit. -/
theorem leaves_transferLength (b : Buffer) (v : Value) :
    Leaves K (transferLength b v) fun given _ =>
      ∀ length ∈ given, ∀ max, b.maxLength = some max → length ≤ max := by
  intro r given r' _ _ h length hgiven max hmax
  obtain rfl := hgiven
  unfold transferLength at h
  cases v with
  | number | text =>
    obtain ⟨index, r₁, -, h⟩ := yields_bind_iff.mp h
    obtain ⟨given, r₂, -, h⟩ := yields_bind_iff.mp h
    split at h
    · obtain ⟨_, _, hthrow, -⟩ := yields_bind_iff.mp h
      exact absurd hthrow not_yields_throwNew
    · next hlimit =>
      cases h
      rw [hmax] at hlimit
      simpa using hlimit
  | _ => cases h

/-- **The bytes of a buffer move to another one.** -/
@[grind ←]
theorem behaves_transferBuffer (c : Invocation) : Behaves (transferBuffer c) := by
  unfold transferBuffer
  refine (behaves_bufferReceiver _).bind_since (leaves_bufferReceiver _) fun receiver => ?_
  obtain ⟨id, b⟩ := receiver
  refine .unless (behaves_throwType _) (fun _ _ => not_yields_throwNew) fun _ => ?_
  refine (behaves_transferLength _ _).since.bind_leaving (leaves_transferLength _ _) fun given => ?_
  have hmove {K : Store → Prop} (moved : Buffer) (h : ∀ s : Store, s.Since K → moved.Fits) :
      BehavesSince K (do
        changeBuffer id fun b => { b with bytes := ByteArray.empty, detached := true }
        return Value.object (← newBuffer moved)) :=
    (behavesSince_changeBuffer fun _ _ _ _ => .emptied).bind fun _ =>
      (behavesSince_newBuffer h).bind fun id => (Behaves.pure _).since
  cases given with
  | none =>
    simp only [pure_bind]
    refine hmove b fun s hs => ?_
    obtain ⟨-, -, -, hfits⟩ := (hs.join fun _ h => h.2).hasKind
    exact hfits
  | some length =>
    simp only [pure_bind]
    refine hmove _ fun s hs => ?_
    obtain ⟨-, -, ⟨hlimit, -⟩, -⟩ := hs
    exact Buffer.fits_resized (hlimit length rfl)

@[grind ←]
theorem behaves_applyBuffer (op : BufferNative) (c : Invocation) : Behaves (applyBuffer op c) := by
  unfold applyBuffer
  cases op <;> grind -linarith

@[grind ←]
theorem behaves_windowOn (id : ObjectId) (b : Buffer) (c : Invocation) :
    Behaves (windowOn id b c) := by
  unfold windowOn
  grind -linarith

@[grind ←]
theorem behaves_windowOfItems (items : List Value) : Behaves (windowOfItems items) := by
  unfold windowOfItems
  have hbytes : Behaves (items.mapM fun item => do return Number.toByte (← toNumber item)) :=
    behaves_mapM (fun item => (behaves_toNumber item).bind fun _ => .pure _) items
  refine hbytes.bind fun bytes => ?_
  exact (behaves_newBuffer (Buffer.fits_of_maxLength_eq_none rfl)).bind fun id => .pure _

@[grind ←]
theorem behaves_constructBytes (c : Invocation) : Behaves (constructBytes c) := by
  unfold constructBytes
  refine Behaves.guard (behaves_throwType _) fun _ => ?_
  extract_lets source make
  have hmake : ∀ window, Behaves (make window) := by
    intro window
    grind -linarith
  have hempty (length : ℕ) : Behaves (newBuffer (Buffer.ofLength length)) :=
    behaves_newBuffer (Buffer.fits_of_maxLength_eq_none rfl)
  clear_value make source
  cases source <;> grind -linarith

@[grind ←]
theorem behaves_applyBytes (op : BytesNative) (c : Invocation) : Behaves (applyBytes op c) := by
  unfold applyBytes
  cases op <;> grind -linarith

/-! ## Maps and sets -/

omit [Machine] [SafeMachine] in
@[grind ←]
theorem behaves_throwNotCollection (name : String) (v : Value) :
    Behaves (throwNotCollection name v : Run α) := by
  unfold throwNotCollection
  grind -linarith

omit [Machine] [SafeMachine] in
@[grind ←]
theorem behaves_mapReceiver (v : Value) : Behaves (mapReceiver v) := by
  unfold mapReceiver
  grind -linarith

omit [Machine] [SafeMachine] in
@[grind ←]
theorem behaves_setReceiver (v : Value) : Behaves (setReceiver v) := by
  unfold setReceiver
  grind -linarith

omit [Machine] [SafeMachine] in
theorem leaves_mapReceiver (v : Value) :
    Leaves K (mapReceiver v) fun p s => s.Since fun s => s.HasKind p.1 (.map p.2) := by
  have hrefuse : ∀ {K : Store → Prop} {Q : ObjectId × Table CollectionKey Value → Store → Prop},
      Leaves K (throwNotCollection "Map" v) Q :=
    (behaves_display v).bind_leaves fun _ => leaves_of_not_yields fun _ _ _ => not_yields_throwNew
  unfold mapReceiver
  split
  · next id =>
    refine Leaves.bind (behaves_kindOf id).since (leaves_kindOf id) fun kind => ?_
    split
    · exact .pure fun s hs => hs.imp fun _ _ h => h.1
    · exact hrefuse
  · exact hrefuse

omit [Machine] [SafeMachine] in
theorem leaves_setReceiver (v : Value) :
    Leaves K (setReceiver v) fun p s => s.Since fun s => s.HasKind p.1 (.set p.2) := by
  have hrefuse : ∀ {K : Store → Prop} {Q : ObjectId × Table CollectionKey Unit → Store → Prop},
      Leaves K (throwNotCollection "Set" v) Q :=
    (behaves_display v).bind_leaves fun _ => leaves_of_not_yields fun _ _ _ => not_yields_throwNew
  unfold setReceiver
  split
  · next id =>
    refine Leaves.bind (behaves_kindOf id).since (leaves_kindOf id) fun kind => ?_
    split
    · exact .pure fun s hs => hs.imp fun _ _ h => h.1
    · exact hrefuse
  · exact hrefuse

omit [Machine] [SafeMachine] in
@[grind ←]
theorem behaves_insertEntry (id : ObjectId) (key value : Value) :
    Behaves (insertEntry id key value) := by
  unfold insertEntry
  refine (behaves_kindOf id).bind_leaving (leaves_kindOf id) fun kind => ?_
  split
  · exact behavesSince_setMap fun h => h.insert key value
  · exact (Behaves.pure _).since

omit [Machine] [SafeMachine] in
@[grind ←]
theorem behaves_insertElement (id : ObjectId) (element : Value) :
    Behaves (insertElement id element) := by
  unfold insertElement
  refine (behaves_kindOf id).bind_leaving (leaves_kindOf id) fun kind => ?_
  split
  · exact behavesSince_setSet fun h => h.insert element ()
  · exact (Behaves.pure _).since

theorem behaves_constructCollection (c : Invocation) (name : String) (fallback : ObjectId)
    {kind : Kind} (hkind : kind.Sound) (harray : kind.isArray = false)
    {add : ObjectId → Value → Run Unit} (hadd : ∀ id v, Behaves (add id v)) :
    Behaves (constructCollection c name fallback kind add) := by
  have hallocate := fun prototype => behaves_allocateKind prototype hkind harray
  unfold constructCollection
  grind -linarith

@[grind ←]
theorem behaves_addPair (id : ObjectId) (pair : Value) : Behaves (addPair id pair) := by
  unfold addPair
  grind -linarith

@[grind ←]
theorem behaves_applyMap (op : MapNative) (c : Invocation) : Behaves (applyMap op c) := by
  unfold applyMap
  cases op with
  | construct =>
    have hempty : (Kind.map {}).Sound := Table.hasKeys_empty
    exact behaves_get.bind fun r => behaves_constructCollection c _ _ hempty rfl behaves_addPair
  | set =>
    refine (behaves_mapReceiver _).bind_since (leaves_mapReceiver _) fun receiver => ?_
    exact (behavesSince_setMap fun h => h.insert _ _).bind fun _ => (Behaves.pure _).since
  | delete =>
    refine (behaves_mapReceiver _).bind_since (leaves_mapReceiver _) fun receiver => ?_
    exact (behavesSince_setMap fun h => h.erase _).bind fun _ => (Behaves.pure _).since
  | _ => grind -linarith

@[grind ←]
theorem behaves_applySet (op : SetNative) (c : Invocation) : Behaves (applySet op c) := by
  unfold applySet
  cases op with
  | construct =>
    have hempty : (Kind.set {}).Sound := Table.hasKeys_empty
    exact behaves_get.bind fun r => behaves_constructCollection c _ _ hempty rfl behaves_insertElement
  | add =>
    refine (behaves_setReceiver _).bind_since (leaves_setReceiver _) fun receiver => ?_
    exact (behavesSince_setSet fun h => h.insert _ _).bind fun _ => (Behaves.pure _).since
  | delete =>
    refine (behaves_setReceiver _).bind_since (leaves_setReceiver _) fun receiver => ?_
    exact (behavesSince_setSet fun h => h.erase _).bind fun _ => (Behaves.pure _).since
  | _ => grind -linarith

/-! ## Dates, errors, functions and patterns -/

@[grind ←]
theorem behaves_timeArgument (c : Invocation) : Behaves (timeArgument c) := by
  unfold timeArgument
  grind -linarith

@[grind ←]
theorem behaves_applyDate (op : DateNative) (c : Invocation) : Behaves (applyDate op c) := by
  unfold applyDate
  cases op <;> grind -linarith

@[grind ←]
theorem behaves_constructError (kind : ErrorKind) (c : Invocation) :
    Behaves (constructError kind c) := by
  unfold constructError
  refine behaves_get.bind fun r => (behaves_prototypeFrom _ _).bind fun prototype => ?_
  refine (behaves_allocate _ rfl).bind fun id => ?_
  extract_lets finish
  have hfinish : ∀ message, Behaves (finish message) := by
    intro message
    grind -linarith
  clear_value finish
  grind -linarith

@[grind ←]
theorem behaves_errorPart (id : ObjectId) (name fallback : String) :
    Behaves (errorPart id name fallback) := by
  unfold errorPart
  grind -linarith

@[grind ←]
theorem behaves_errorText (v : Value) : Behaves (errorText v) := by
  unfold errorText
  grind -linarith

omit [Machine] [SafeMachine] in
@[grind ←]
theorem behaves_functionSource (v : Value) : Behaves (functionSource v) := by
  unfold functionSource
  grind -linarith

@[grind ←]
theorem behaves_listedArguments (v : Value) : Behaves (listedArguments v) := by
  unfold listedArguments
  grind -linarith

@[grind ←]
theorem behaves_applyFunction (op : FunctionNative) (c : Invocation) :
    Behaves (applyFunction op c) := by
  unfold applyFunction
  cases op <;> grind -linarith

omit [Machine] [SafeMachine] in
@[grind ←]
theorem behaves_patternOf? (v : Value) : Behaves (patternOf? v) := by
  unfold patternOf?
  grind -linarith

@[grind ←]
theorem behaves_patternArgument (v : Value) : Behaves (patternArgument v) := by
  unfold patternArgument
  grind -linarith

omit [Machine] [SafeMachine] in
@[grind ←]
theorem behaves_patternReceiver (v : Value) (half : String × String → String) :
    Behaves (patternReceiver v half) := by
  unfold patternReceiver
  grind -linarith

@[grind ←]
theorem behaves_applyRegExp (op : RegExpNative) (c : Invocation) : Behaves (applyRegExp op c) := by
  unfold applyRegExp
  cases op <;> grind -linarith

/-! ## Interchange texts -/

@[grind ←]
theorem behaves_interchangeFields (id : ObjectId) (seen : List ObjectId) :
    Behaves (interchangeFields id seen) := by
  unfold interchangeFields
  grind -linarith

@[grind ←]
theorem behaves_interchangeForm (v : Value) (seen : List ObjectId) :
    Behaves (interchangeForm v seen) := by
  unfold interchangeForm
  cases v <;> grind -linarith

omit [Machine] [SafeMachine] in
mutual

/-- The value of an interchange value, by its structure. -/
theorem behaves_valueOfJson : ∀ j : Json, Behaves (valueOfJson j)
  | .null | .bool _ | .number _ | .text _ => by
    unfold valueOfJson
    exact Behaves.pure _
  | .array items => by
    have hitems := behaves_valuesOfArray items
    unfold valueOfJson
    grind -linarith
  | .object fields => by
    have hfields := behaves_addFields fields
    unfold valueOfJson
    grind -linarith

theorem behaves_valuesOfArray : ∀ items : List Json, Behaves (valuesOfArray items)
  | [] => Behaves.pure _
  | j :: rest => by
    have hfirst := behaves_valueOfJson j
    have hrest := behaves_valuesOfArray rest
    unfold valuesOfArray
    grind -linarith

theorem behaves_addFields : ∀ (fields : List (String × Json)) (id : ObjectId),
    Behaves (addFields id fields)
  | [], _ => Behaves.pure _
  | (name, j) :: rest, id => by
    have hfirst := behaves_valueOfJson j
    have hrest := behaves_addFields rest id
    unfold addFields
    grind -linarith

end

@[grind ←]
theorem behaves_applyJson (op : JsonNative) (c : Invocation) : Behaves (applyJson op c) := by
  have hvalue := behaves_valueOfJson
  unfold applyJson
  cases op <;> grind -linarith

/-! ## Objects -/

omit [Machine] [SafeMachine] in
@[grind ←]
theorem behaves_describeProperty (d : Descriptor) : Behaves (describeProperty d) := by
  unfold describeProperty
  refine behaves_newObject.bind fun id => ?_
  grind -linarith

omit [Machine] [SafeMachine] in
@[grind ←]
theorem behaves_prototypeArgument (v : Value) : Behaves (prototypeArgument v) := by
  unfold prototypeArgument
  grind -linarith

omit [Machine] [SafeMachine] in
@[grind ←]
theorem behaves_accessorHalf (v : Value) (word : String) : Behaves (accessorHalf v word) := by
  unfold accessorHalf
  grind -linarith

omit [Machine] [SafeMachine] in
theorem leaves_accessorHalf (v : Value) (word : String) :
    Leaves K (accessorHalf v word) fun f s => s.IsHalf f := by
  unfold accessorHalf
  refine Leaves.bind (behaves_functionOf? v).since (leaves_functionOf? v) fun f => ?_
  split
  · exact .pure fun _ _ => Store.isHalf_none
  · exact .pure fun s hs => (hs.imp fun _ _ h => h.1).isHalf
  · exact (behaves_display _).bind_leaves fun _ => leaves_of_not_yields fun _ _ _ => not_yields_throwNew

omit [Machine] [SafeMachine] in
@[grind ←]
theorem behaves_ownKeysOf (id : ObjectId) : Behaves (ownKeysOf id) := by
  unfold ownKeysOf
  grind -linarith

omit [Machine] [SafeMachine] in
theorem behaves_fixObject (id : ObjectId) {fix : Object → Object} (hkind : ∀ o, (fix o).kind = o.kind)
    (hfix : ∀ (s : Store) (o : Object), o.Sound s → (fix o).Sound s) : Behaves (fixObject id fix) := by
  have hchange : Behaves (changeStore fun s => do return (← s.modify id fix, ())) :=
    behaves_modifyObject hkind hfix
  unfold fixObject
  grind -linarith

omit [Machine] [SafeMachine] in
@[grind ←]
theorem behaves_askObject (v : Value) (otherwise : Bool) (ask : Object → Bool) :
    Behaves (askObject v otherwise ask) := by
  unfold askObject
  grind -linarith

omit [Machine] [SafeMachine] in
@[grind ←]
theorem behaves_replacePrototype (target : Value) (prototype : Option ObjectId) :
    Behaves (replacePrototype target prototype) := by
  unfold replacePrototype
  cases target with
  | object id =>
    refine behaves_get_bind (fun r => ?_) fun r hr hs => ?_
    · split
      · exact (runs_modify fun _ => .store _).bind fun _ => (Behaves.pure _).since
      all_goals
        refine Behaves.since ?_
        grind -linarith
    · split
      · next s h => exact Store.evolves_of_setPrototype hs h
      · exact (behaves_throwType _).ends.evolves r hr hs
      · exact (behaves_throwType _).ends.evolves r hr hs
      · exact .refl hs
  | _ => exact Behaves.pure _

@[grind ←]
theorem behaves_descriptorPart (id : ObjectId) (name : String) :
    Behaves (descriptorPart id name) := by
  unfold descriptorPart
  grind -linarith

@[grind ←]
theorem behaves_descriptorOf (v : Value) (present : Option Descriptor) :
    Behaves (descriptorOf v present) := by
  unfold descriptorOf
  split
  · refine (behaves_descriptorPart _ _).bind fun getter => ?_
    refine (behaves_descriptorPart _ _).bind fun setter => ?_
    refine (behaves_descriptorPart _ _).bind fun value => ?_
    refine (behaves_descriptorPart _ _).bind fun writable => ?_
    refine (behaves_descriptorPart _ _).bind fun enumerable => ?_
    refine (behaves_descriptorPart _ _).bind fun configurable => ?_
    extract_lets enumerable' configurable' oldValue oldWritable skip
    split
    · refine Behaves.guard (behaves_throwType _) fun _ => ?_
      cases getter <;> cases setter <;> simp only [oldValue, pure_bind] <;> grind -linarith
    · exact Behaves.pure _
  · grind -linarith

/-- The halves of an accessor are functions, also where one that is there is kept. -/
theorem leaves_descriptorOf (v : Value) {present : Option Descriptor}
    (hpresent : ∀ s : Store, s.Since K → ∀ d ∈ present.toList, d.Sound s) :
    Leaves K (descriptorOf v present) fun d s => d.Sound s := by
  have hbehaves := behaves_accessorHalf
  have hleaves := leaves_accessorHalf (K := K)
  unfold descriptorOf
  split
  · refine (behaves_descriptorPart _ _).bind_leaves fun getter => ?_
    refine (behaves_descriptorPart _ _).bind_leaves fun setter => ?_
    refine (behaves_descriptorPart _ _).bind_leaves fun value => ?_
    refine (behaves_descriptorPart _ _).bind_leaves fun writable => ?_
    refine (behaves_descriptorPart _ _).bind_leaves fun enumerable => ?_
    refine (behaves_descriptorPart _ _).bind_leaves fun configurable => ?_
    extract_lets enumerable' configurable' oldValue oldWritable skip
    split
    · refine Leaves.guard (behaves_throwType _) fun _ => ?_
      unfold oldValue
      split
      next g h hold =>
        obtain ⟨hg, hh⟩ : Leaves K (Pure.pure g) (fun f s => s.IsHalf f) ∧
            Leaves K (Pure.pure h) fun f s => s.IsHalf f := by
          split at hold <;> cases hold
          · exact leaves_halves fun s hs => hpresent s hs _ List.mem_cons_self
          · exact ⟨leaves_noHalf, leaves_noHalf⟩
        cases getter with
        | none =>
          cases setter with
          | none => exact leaves_accessor (.pure g) (.pure h) hg hh
          | some w => exact leaves_accessor (.pure g) (hbehaves w _) hg (hleaves w _)
        | some u =>
          cases setter with
          | none => exact leaves_accessor (hbehaves u _) (.pure h) (hleaves u _) hh
          | some w => exact leaves_accessor (hbehaves u _) (hbehaves w _) (hleaves u _) (hleaves w _)
    · exact .pure fun _ _ => trivial
  · exact (behaves_display _).bind_leaves fun _ => leaves_of_not_yields fun _ _ _ => not_yields_throwNew

@[grind ←]
theorem behaves_ownProperty? (id : ObjectId) (key : Key) : Behaves (ownProperty? id key) := by
  unfold ownProperty?
  grind -linarith

@[grind ←]
theorem behaves_createObject (prototype : Option ObjectId) (properties : Value) :
    Behaves (createObject prototype properties) := by
  unfold createObject
  refine (behaves_allocate _ rfl).bind fun id => ?_
  split
  · refine (behaves_objectAt _).bind fun o => ?_
    refine Behaves.bind (behaves_forIn (fun q _ => ?_) _ _) fun _ => Behaves.pure _
    have hdefine : ∀ v, Behaves (do
        defineOrThrow id q.1 (← descriptorOf v none)
        return ForInStep.yield PUnit.unit) := fun v =>
      (behaves_descriptorOf v none).bind_leaving
        (leaves_descriptorOf v fun _ _ => List.forall_mem_nil _) fun d =>
          (behavesSince_defineOrThrow fun s hs => hs.descriptor).bind fun _ => (Behaves.pure _).since
    grind -linarith
  · exact Behaves.pure _

omit [Machine] [SafeMachine] in
@[grind ←]
theorem behaves_ownNames (id : ObjectId) (all : Bool) : Behaves (ownNames id all) := by
  unfold ownNames
  grind -linarith

@[grind ←]
theorem behaves_applyObject (op : ObjectNative) (c : Invocation) : Behaves (applyObject op c) := by
  have hfreeze : ∀ id, Behaves (fixObject id Object.frozen) := fun id =>
    behaves_fixObject id (fun _ => rfl) fun _ _ h => h.frozen
  have hseal : ∀ id, Behaves (fixObject id Object.sealed) := fun id =>
    behaves_fixObject id (fun _ => rfl) fun _ _ h => h.sealed
  unfold applyObject
  cases op with
  | defineProperty =>
    cases c.arg 0 with
    | object id =>
      refine (behaves_toKey _).bind fun key => ?_
      refine (behaves_objectAt id).bind_leaving (leaves_objectAt id) fun o => ?_
      refine (behaves_descriptorOf _ _).since.bind_leaving (leaves_descriptorOf _ fun _ hs => hs.own?)
        fun d => ?_
      exact (behavesSince_defineOrThrow fun s hs => (hs.imp fun _ _ h => h.1).descriptor).bind fun _ =>
        (Behaves.pure _).since
    | _ => exact behaves_throwType _
  | preventExtensions =>
    cases c.arg 0 with
    | object id => exact (behaves_close id).bind fun _ => Behaves.pure _
    | _ => exact Behaves.pure _
  | _ => grind -linarith

/-! ## Primitive values -/

omit [Machine] [SafeMachine] in
@[grind ←]
theorem behaves_unwrapped (v : Value) : Behaves (unwrapped v) := by
  unfold unwrapped
  grind -linarith

omit [Machine] [SafeMachine] in
@[grind ←]
theorem behaves_symbolReceiver (v : Value) : Behaves (symbolReceiver v) := by
  unfold symbolReceiver
  grind -linarith

@[grind ←]
theorem behaves_toBigint (v : Value) : Behaves (toBigint v) := by
  unfold toBigint
  grind -linarith

@[grind ←]
theorem behaves_numberArgument (c : Invocation) : Behaves (numberArgument c) := by
  unfold numberArgument
  grind -linarith

@[grind ←]
theorem behaves_textArgument (c : Invocation) : Behaves (textArgument c) := by
  unfold textArgument
  grind -linarith

theorem behaves_primitiveOrObject (c : Invocation) {v : Value} (fallback : ObjectId)
    (hobject : v.isObject = false) (hnullish : v.isNullish = false) :
    Behaves (primitiveOrObject c v fallback) := by
  unfold primitiveOrObject
  grind -linarith

@[grind ←]
theorem behaves_applyPrimitive (op : PrimitiveNative) (c : Invocation) :
    Behaves (applyPrimitive op c) := by
  unfold applyPrimitive
  cases op with
  | number =>
    exact (behaves_numberArgument c).bind fun _ => behaves_get.bind fun _ =>
      behaves_primitiveOrObject c _ rfl rfl
  | string =>
    exact (behaves_textArgument c).bind fun _ => behaves_get.bind fun _ =>
      behaves_primitiveOrObject c _ rfl rfl
  | boolean => exact behaves_get.bind fun _ => behaves_primitiveOrObject c _ rfl rfl
  | _ => grind -linarith

@[grind ←]
theorem behaves_applySymbol (op : SymbolNative) (c : Invocation) : Behaves (applySymbol op c) := by
  have hcreate : ∀ description, Behaves (modifyGet fun r : Realm =>
      (Value.symbol (r.symbols.create description).1,
        { r with symbols := (r.symbols.create description).2 })) :=
    fun description => behaves_modifyGet (fun _ => .symbol description) fun _ => rfl
  have hshared : ∀ key, Behaves (modifyGet fun r : Realm =>
      (Value.symbol (r.symbols.shared key).1, { r with symbols := (r.symbols.shared key).2 })) :=
    fun key => behaves_modifyGet (fun _ => .sharedSymbol key) fun _ => rfl
  unfold applySymbol
  cases op with
  | construct =>
    dsimp only
    split
    · exact (Behaves.pure none).bind hcreate
    · exact (behaves_toText _).bind fun description => (Behaves.pure (some description)).bind hcreate
  | «for» => exact (behaves_toText _).bind hshared
  | _ => grind -linarith

@[grind ←]
theorem behaves_applyMath (op : MathNative) (c : Invocation) : Behaves (applyMath op c) := by
  unfold applyMath
  cases op <;> grind -linarith

/-! ## Promises -/

omit [Machine] [SafeMachine] in
@[grind ←]
theorem behaves_promiseState? (v : Value) : Behaves (promiseState? v) := by
  unfold promiseState?
  grind -linarith

omit [Machine] [SafeMachine] in
@[grind ←]
theorem behaves_fulfilledWith (v : Value) : Behaves (fulfilledWith v) := by
  unfold fulfilledWith
  grind -linarith

omit [Machine] [SafeMachine] in
@[grind ←]
theorem behaves_settlePromise (id : ObjectId) (state : PromiseState) :
    Behaves (settlePromise id state) := by
  unfold settlePromise
  refine (behaves_kindOf id).bind_leaving (leaves_kindOf id) fun kind => ?_
  split
  · exact behavesSince_setPromise state
  · exact (Behaves.pure _).since

omit [Machine] [SafeMachine] in
@[grind ←]
theorem behaves_settlingFunction (op : PromiseNative) (promise : ObjectId) :
    Behaves (settlingFunction op promise) := by
  unfold settlingFunction
  grind -linarith

@[grind ←]
theorem behaves_constructPromise (c : Invocation) : Behaves (constructPromise c) := by
  unfold constructPromise
  refine Behaves.guard (behaves_throwType _) fun _ => behaves_get.bind fun r => ?_
  extract_lets make
  have hmake : ∀ u, Behaves (make u) := by
    intro u
    refine behaves_get.bind fun r' => (behaves_prototypeFrom _ _).bind fun prototype => ?_
    refine (behaves_allocate _ rfl).bind fun id => (behaves_settlingFunction _ _).bind fun fulfil => ?_
    refine (behaves_settlingFunction _ _).bind fun refuse => ?_
    grind -linarith
  clear_value make
  grind -linarith

@[grind ←]
theorem behaves_applyPromise (op : PromiseNative) (c : Invocation) :
    Behaves (applyPromise op c) := by
  unfold applyPromise
  cases op <;> grind -linarith

/-! ## The runtime -/

@[grind ←]
theorem behaves_registrationOf (options : Value) (name : String) :
    Behaves (registrationOf options name) := by
  unfold registrationOf
  grind -linarith

@[grind ←]
theorem behaves_registerCallable (name : String) (class_ : Bool) (c : Invocation) :
    Behaves (registerCallable name class_ c) := by
  unfold registerCallable
  grind -linarith

@[grind ←]
theorem behaves_registerHalf (id : ObjectId) (item : Value) : Behaves (registerHalf id item) := by
  unfold registerHalf
  refine (behaves_getNamed _ _).bind fun keyValue => (behaves_toKey _).bind fun key => ?_
  refine (behaves_getNamed _ _).bind fun kindValue => (behaves_toText _).bind fun kind => ?_
  refine (behaves_registrationOf _ _).bind fun record => ?_
  grind -linarith

@[grind ←]
theorem behaves_registerAccessors (c : Invocation) : Behaves (registerAccessors c) := by
  have hregister : ∀ id items, Behaves (do
      List.forM items (registerHalf id)
      return c.arg 0 : Run Value) := fun id items =>
    (behaves_forM (behaves_registerHalf id) items).bind fun _ => Behaves.pure _
  unfold registerAccessors
  grind -linarith

/-- Scripts never give entries to go on with. -/
theorem ends_suspendOptions (options : Value) :
    Ends (suspendOptions options) fun o => o.known = {} := by
  unfold suspendOptions
  split
  · exact Ends.pure rfl
  · refine (behaves_getNamed _ _).bind_ends fun pathValue => ?_
    extract_lets finish
    have hfinish : ∀ path, Ends (finish path) fun o => o.known = {} := fun path =>
      (behaves_getNamed _ _).bind_ends fun stop => Ends.pure rfl
    clear_value finish
    split
    · exact (Behaves.pure none).bind_ends hfinish
    · exact (Behaves.pure none).bind_ends hfinish
    · exact (behaves_toText _).bind_ends fun path => (Behaves.pure (some path)).bind_ends hfinish

theorem behaves_suspendOptions (options : Value) : Behaves (suspendOptions options) := by
  unfold suspendOptions
  grind -linarith

@[grind ←]
theorem behaves_envelopeArgument (v : Value) : Behaves (envelopeArgument v) := by
  have hparse : ∀ s, Behaves (ofExcept (Envelope.parse s)) := by
    intro s
    unfold Envelope.parse
    split
    · exact Behaves.pure _
    · exact behaves_raise rfl
  have hread : ∀ j, Behaves (ofExcept (Envelope.ofJson j)) := by
    intro j
    unfold Envelope.ofJson
    split
    · exact Behaves.pure _
    · exact behaves_raise rfl
  unfold envelopeArgument
  grind -linarith

theorem behaves_applyRuntime (op : RuntimeNative) (c : Invocation) :
    Behaves (applyRuntime op c) := by
  unfold applyRuntime
  cases op with
  | registerHostObject =>
    exact (behaves_toText _).bind fun path => (behaves_registerHostRoot _ path).bind fun _ =>
      Behaves.pure _
  | serialize =>
    refine ⟨(ends_suspendOptions _).bind fun options hoptions => ?_, fun heaps => ?_⟩
    · exact (ends_serialize _ _ hoptions).bind fun e _ => (behaves_valueOfJson _).ends
    · refine ((behaves_suspendOptions _).steady heaps).bind fun options => ?_
      exact (steady_serialize _ options heaps).bind fun e => (behaves_valueOfJson _).steady heaps
  | _ => grind -linarith

omit [Machine] [SafeMachine] in
@[grind ←]
theorem behaves_writeLine (args : List Value) : Behaves (writeLine args) := by
  unfold writeLine
  refine (behaves_mapM behaves_display args).bind fun texts => ?_
  exact Behaves.bind (behaves_modify (fun _ => .line _) fun _ => rfl) fun _ => Behaves.pure _

/-- **Every built-in function behaves.** -/
@[grind ←]
theorem behaves_applyNative (id : Native) (c : Invocation) : Behaves (applyNative id c) := by
  have hruntime := behaves_applyRuntime
  unfold applyNative
  cases id <;> grind -linarith

end Machine

end Stasis
