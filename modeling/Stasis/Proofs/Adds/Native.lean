import Mathlib
import Stasis.Builtin.Dispatch
import Stasis.Proofs.Adds.Realm

/-!
# Built-in functions that only read

* `Base.adds_describeProperty`: the object that describes a property is a new one.
* `Base.adds_applyNative`: a function that only reads adds, whatever it is called with.
-/

namespace Stasis.Base

variable {b : Base}

/-! ## What functions are called on -/

theorem adds_functionOf? (v : Value) : b.Adds (functionOf? v) := by
  unfold functionOf?
  split
  · exact adds_get.bind fun _ => Adds.pure _
  · exact Adds.pure _

theorem adds_functionName (id : ObjectId) : b.Adds (functionName id) :=
  (adds_objectAt id).bind fun _ => Adds.pure _

theorem adds_functionSource (v : Value) : b.Adds (functionSource v) := by
  refine (adds_functionOf? v).bind fun f => ?_
  split
  · exact adds_throwType _
  · refine adds_get.bind fun r => ?_
    split
    · exact Adds.pure _
    · exact (adds_functionName _).bind fun _ => Adds.pure _

theorem adds_unwrapped (v : Value) : b.Adds (unwrapped v) := by
  unfold unwrapped
  split
  · refine (adds_kindOf _).bind fun kind => ?_
    split
    · exact Adds.pure _
    · exact adds_throwType _
  · exact adds_throwType _
  · exact adds_throwType _
  · exact Adds.pure _

theorem adds_symbolReceiver (v : Value) : b.Adds (symbolReceiver v) := by
  unfold symbolReceiver
  split
  · exact Adds.pure _
  · refine (adds_kindOf _).bind fun kind => ?_
    split
    · exact Adds.pure _
    · exact adds_throwType _
  · exact adds_throwType _

theorem adds_mapReceiver (v : Value) : b.Adds (mapReceiver v) := by
  have hrefuse : b.Adds (throwNotCollection "Map" v : Run (ObjectId × Table CollectionKey Value)) :=
    (adds_display v).bind fun _ => adds_throwType _
  unfold mapReceiver
  split
  · refine (adds_kindOf _).bind fun kind => ?_
    split
    · exact Adds.pure _
    · exact hrefuse
  · exact hrefuse

theorem adds_setReceiver (v : Value) : b.Adds (setReceiver v) := by
  have hrefuse : b.Adds (throwNotCollection "Set" v : Run (ObjectId × Table CollectionKey Unit)) :=
    (adds_display v).bind fun _ => adds_throwType _
  unfold setReceiver
  split
  · refine (adds_kindOf _).bind fun kind => ?_
    split
    · exact Adds.pure _
    · exact hrefuse
  · exact hrefuse

theorem adds_patternReceiver (v : Value) (half : String × String → String) :
    b.Adds (patternReceiver v half) := by
  have hpattern : b.Adds (patternOf? v) := by
    unfold patternOf?
    split
    · refine (adds_kindOf _).bind fun kind => ?_
      split <;> exact Adds.pure _
    · exact Adds.pure _
  refine hpattern.bind fun pattern => ?_
  split
  · exact Adds.pure _
  · exact adds_throwType _

theorem adds_bufferReceiver (v : Value) : b.Adds (bufferReceiver v) := by
  have hrefuse : b.Adds (do
      throwType ("Method ArrayBuffer.prototype method called on incompatible receiver "
        ++ (← display v)) : Run (ObjectId × Buffer)) :=
    (adds_display v).bind fun _ => adds_throwType _
  unfold bufferReceiver
  split
  · refine (adds_kindOf _).bind fun kind => ?_
    split
    · exact Adds.pure _
    · exact hrefuse
  · exact hrefuse

theorem adds_windowReceiver (v : Value) : b.Adds (windowReceiver v) := by
  unfold windowReceiver
  split
  · refine (adds_kindOf _).bind fun kind => ?_
    split
    · exact Adds.pure _
    · exact adds_throwType _
  · exact adds_throwType _

/-- The parts of a description go by names under which nothing is looked up to be called. -/
theorem adds_describeProperty (d : Descriptor) : b.Adds (describeProperty d) := by
  refine gives_newObject.bind_adds fun id hid => ?_
  refine Adds.bind (adds_forIn (fun part hpart _ => ?_) _) fun _ => Adds.pure _
  have hkey : (Key.text part.1).isAsked = false := by
    cases d <;> simp only [List.cons_append, List.nil_append, List.mem_cons, List.not_mem_nil,
      or_false] at hpart <;> rcases hpart with rfl | rfl | rfl | rfl <;> rfl
  exact (adds_addProperty hid hkey _).bind fun _ => Adds.pure _

/-- The symbols that were there are still there when one is asked for by its key. -/
theorem adds_shared (key : String) :
    b.Adds (modifyGet fun r =>
      let (id, symbols) := r.symbols.shared key
      (Value.symbol id, { r with symbols })) := by
  refine gives_modifyGet fun r hr => ⟨?_, rfl, trivial⟩
  dsimp only [Symbols.shared]
  cases hkey : r.symbols.byKey.find? key with
  | some id => exact hr.withSymbols (fun _ _ h => h) fun _ _ h => h
  | none =>
    refine hr.withSymbols (fun id d hd => ?_) fun key' id hk => ?_
    · rw [Symbols.create, Array.getElem?_push, if_neg, hd]
      rintro rfl
      simp at hd
    · dsimp only [Symbols.create]
      rw [Table.find?_insert, if_neg]
      · exact hk
      · rintro rfl
        cases hkey.symm.trans hk

/-! ## Calls -/

section Calls

variable [Machine] {c : Invocation}

theorem adds_applyMap {op : MapNative} (h : (Native.map op).isReader = true) :
    b.Adds (applyMap op c) := by
  cases op
  case size => exact (adds_mapReceiver _).bind fun _ => Adds.pure _
  all_goals cases h

theorem adds_applySet {op : SetNative} (h : (Native.set op).isReader = true) :
    b.Adds (applySet op c) := by
  cases op
  case values =>
    exact (adds_setReceiver _).bind fun _ => (adds_newArray _).bind fun _ => Adds.pure _
  case size => exact (adds_setReceiver _).bind fun _ => Adds.pure _
  all_goals cases h

theorem adds_applyDate {op : DateNative} (h : (Native.date op).isReader = true) :
    b.Adds (applyDate op c) := by
  cases op
  case getTime =>
    unfold applyDate
    dsimp only
    split
    · refine (adds_kindOf _).bind fun kind => ?_
      split
      · exact Adds.pure _
      · exact adds_throwType _
    · exact adds_throwType _
  all_goals cases h

theorem adds_applyRegExp {op : RegExpNative} (h : (Native.regexp op).isReader = true) :
    b.Adds (applyRegExp op c) := by
  cases op
  case source => exact adds_patternReceiver _ _
  case flags => exact adds_patternReceiver _ _
  all_goals cases h

theorem adds_applyBuffer {op : BufferNative} (h : (Native.buffer op).isReader = true) :
    b.Adds (applyBuffer op c) := by
  cases op
  case construct | resize | transfer => cases h
  all_goals exact (adds_bufferReceiver _).bind fun _ => Adds.pure _

theorem adds_applyBytes {op : BytesNative} (h : (Native.bytes op).isReader = true) :
    b.Adds (applyBytes op c) := by
  cases op
  case construct => cases h
  all_goals exact (adds_windowReceiver _).bind fun _ => Adds.pure _

variable [TameMachine b]

theorem adds_ownProperty? (id : ObjectId) (key : Key) : b.Adds (ownProperty? id key) := by
  refine (adds_kindOf id).bind fun kind => ?_
  split
  · split
    · exact Adds.pure _
    · exact (adds_getFrom _ _ _).bind fun _ => Adds.pure _
  · exact (adds_objectAt id).bind fun _ => Adds.pure _

theorem adds_joinItems (separator : String) (items : List Value) :
    b.Adds (joinItems separator items) := by
  refine (adds_mapM (fun item => ?_) items).bind fun texts => Adds.pure _
  split
  · exact Adds.pure _
  · exact adds_toText item

theorem adds_errorPart (id : ObjectId) (name fallback : String) :
    b.Adds (errorPart id name fallback) := by
  refine (adds_getOf id name).bind fun part => ?_
  split
  · exact Adds.pure _
  · exact adds_toText _

theorem adds_errorText (v : Value) : b.Adds (errorText v) := by
  unfold errorText
  split
  · refine (adds_errorPart _ _ _).bind fun name => (adds_errorPart _ _ _).bind fun message => ?_
    split
    · exact Adds.pure _
    · split <;> exact Adds.pure _
  · exact adds_throwType _

theorem adds_applyObject {op : ObjectNative} (h : (Native.object op).isReader = true) :
    b.Adds (applyObject op c) := by
  cases op
  case getPrototypeOf =>
    refine (adds_toObject _).bind fun id => (adds_objectAt id).bind fun o => ?_
    split <;> exact Adds.pure _
  case getOwnPropertyDescriptor =>
    refine (adds_toObject _).bind fun id => (adds_toKey _).bind fun key => ?_
    refine (adds_ownProperty? id key).bind fun found => ?_
    split
    · exact adds_describeProperty _
    · exact Adds.pure _
  case toString =>
    unfold applyObject
    dsimp only
    split
    · exact Adds.pure _
    · exact Adds.pure _
    · exact (adds_toObject _).bind fun _ => (adds_kindOf _).bind fun _ => Adds.pure _
  case valueOf => exact (adds_toObject _).bind fun _ => Adds.pure _
  all_goals cases h

theorem adds_applySymbol {op : SymbolNative} (h : (Native.symbol op).isReader = true) :
    b.Adds (applySymbol op c) := by
  cases op
  case «for» => exact (adds_toText _).bind fun key => adds_shared key
  case description =>
    exact (adds_symbolReceiver _).bind fun _ => adds_get.bind fun _ => Adds.pure _
  case toString =>
    exact adds_get.bind fun _ => (adds_symbolReceiver _).bind fun _ => Adds.pure _
  all_goals cases h

theorem adds_applyPrimitive {op : PrimitiveNative} (h : (Native.primitive op).isReader = true) :
    b.Adds (applyPrimitive op c) := by
  cases op
  case valueOf => exact adds_unwrapped _
  case toString =>
    refine (adds_unwrapped _).bind fun v => ?_
    split
    · exact adds_get.bind fun _ => Adds.pure _
    · exact (adds_toText _).bind fun _ => Adds.pure _
  all_goals cases h

/-- **A built-in function that only reads adds**, whatever it is called with. -/
theorem adds_applyNative {op : Native} (h : op.isReader = true) (c : Invocation) :
    b.Adds (applyNative op c) := by
  cases op with
  | object op => exact adds_applyObject h
  | function op =>
    cases op
    case toString => exact (adds_functionSource _).bind fun _ => Adds.pure _
    all_goals cases h
  | array op =>
    cases op
    case toString =>
      exact (adds_toObject _).bind fun _ => (adds_arrayItems _).bind fun _ => adds_joinItems _ _
    all_goals cases h
  | map op => exact adds_applyMap h
  | set op => exact adds_applySet h
  | symbol op => exact adds_applySymbol h
  | date op => exact adds_applyDate h
  | regexp op => exact adds_applyRegExp h
  | errorToString => exact adds_errorText _
  | buffer op => exact adds_applyBuffer h
  | bytes op => exact adds_applyBytes h
  | primitive op => exact adds_applyPrimitive h
  | _ => cases h

end Calls

end Stasis.Base
