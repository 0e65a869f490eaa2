import Mathlib
import Stasis.Proofs.Exact
import Stasis.Proofs.Graph
import Stasis.Proofs.Integrity
import Stasis.Proofs.Keys

/-!
# The lengths of arrays

An array keeps its length above its elements: an element behind the end makes the array longer, and a
length in front of elements takes them out. Nothing else is looked at when a length is defined: every
value is stored as it is, and elements that cannot be removed stay. So arrays are kept in step with
their elements exactly as long as the lengths that they are given fit.

* `Object.Measured`: the length of an array is an integer above its indices.
* `Object.measured_define_iff`: which definitions keep an array measured.
* `Object.define?_length`: every value is stored as a length that can be written.
* `yields_newArray_measured`: arrays begin measured.
* `own?_data_afterAll`, `measured_afterAll`: any sequence of operations.
-/

namespace Stasis

namespace Object

/-- An integer from 0 to 2³² − 1; zero may have either sign. -/
def IsLength (x : Float) : Prop := (x == Number.ofInt (toLength x)) = true

theorem IsLength.exists_ofInt {x : Float} (h : IsLength x) :
    ∃ n : ℕ, n ≤ 0xFFFFFFFF ∧ (x == Number.ofInt n) = true :=
  ⟨toLength x, toLength_le x, h⟩

theorem isLength_ofInt {n : ℕ} (hn : n ≤ 0xFFFFFFFF) : IsLength (Number.ofInt n) := by
  unfold IsLength
  rw [toLength_ofInt hn]
  exact Number.ofInt_beq_self (by omega)

/-- The own length is an integer and cannot be removed, and every own index is below it. -/
structure Measured (o : Object) : Prop where
  length : ∃ x w e, o.own? .length = some (.data (.number x) w e false) ∧ IsLength x
  below : ∀ key d index, o.own? key = some d → key.arrayIndex? = some index → index < o.arrayLength

/-- What an array can be given as its length so that it stays measured: an integer above all the
indices that cannot be removed. -/
def FitsLength (o : Object) (d : Descriptor) : Prop :=
  ∃ x, d.value? = some (.number x) ∧ IsLength x ∧ ∀ key c index, o.own? key = some c →
    key.arrayIndex? = some index → c.isConfigurable = false → index < toLength x

variable {o o' u : Object} {key : Key} {d : Descriptor}

theorem arrayLength_eq {x : Float} {w e c : Bool}
    (h : o.own? .length = some (.data (.number x) w e c)) : o.arrayLength = toLength x := by
  unfold arrayLength
  rw [h]
  rfl

/-- No element of a measured array is lost behind its end when the array is resumed. -/
theorem Measured.endsAtLength (h : o.Measured) : o.EndsAtLength := by
  intro key d index x w e c hd hindex _ hlength
  rw [← arrayLength_eq hlength]
  exact h.below key d index (Table.find?_eq_some_iff.mpr hd) hindex

/-- An array without elements. -/
def emptyArray (prototype : Option ObjectId) : Object where
  prototype
  properties := Table.insert ∅ .length newLength
  kind := .array

theorem measured_emptyArray (prototype : Option ObjectId) : (emptyArray prototype).Measured := by
  have hzero : IsLength 0 := by
    unfold IsLength
    decide +kernel
  refine ⟨⟨0, true, false, rfl, hzero⟩, fun key d index hd hindex => ?_⟩
  rw [own?, emptyArray, Table.find?_insert, if_neg (ne_length_of_arrayIndex? hindex).symm] at hd
  cases hd

namespace Measured

/-- The length stays the same number, and every index was there before or is below it. -/
theorem congr (h : o.Measured)
    (hlength : ∀ x w e, o.own? .length = some (.data (.number x) w e false) →
      ∃ w', o'.own? .length = some (.data (.number x) w' e false))
    (hbelow : ∀ key d index, o'.own? key = some d → key.arrayIndex? = some index →
      (∃ c, o.own? key = some c) ∨ index < o.arrayLength) : o'.Measured := by
  obtain ⟨x, w, e, hold, hx⟩ := h.length
  obtain ⟨w', hnew⟩ := hlength x w e hold
  refine ⟨⟨x, w', e, hnew, hx⟩, fun key d index hd hindex => ?_⟩
  rw [arrayLength_eq hnew, ← arrayLength_eq hold]
  rcases hbelow key d index hd hindex with ⟨c, hc⟩ | hlt
  · exact h.below key c index hc hindex
  · exact hlt

/-- Under another key than the length, every definition is taken, if it is below the length. -/
theorem insert (h : o.Measured) (hkey : key ≠ .length)
    (hbelow : ∀ index, key.arrayIndex? = some index → index < o.arrayLength) :
    { o with properties := o.properties.insert key d }.Measured := by
  refine h.congr (fun x w e hlength => ⟨w, ?_⟩) fun key' c index hc hindex => ?_
  · rw [own?, Table.find?_insert, if_neg hkey]
    exact hlength
  · rw [own?, Table.find?_insert] at hc
    split at hc
    · next hsame => exact .inr (hbelow index (hsame ▸ hindex))
    · exact .inl ⟨c, hc⟩

/-- An array is made longer. -/
theorem raise {n : ℕ} (h : o.Measured) (hn : n ≤ 0xFFFFFFFF) (hlonger : o.arrayLength ≤ n)
    (hu : o.setArrayLength? n = some u) : u.Measured ∧ u.arrayLength = n := by
  unfold setArrayLength? at hu
  split at hu
  · next e c hlength =>
    cases hu
    obtain ⟨x, w, e', hlength', -⟩ := h.length
    cases hlength.symm.trans hlength'
    let length : Descriptor := .data (.number (Number.ofInt n)) true e false
    have hnew : { o with properties := o.properties.insert .length length }.own? .length
        = some length := by
      rw [own?, Table.find?_insert, if_pos rfl]
    have hlen := (arrayLength_eq hnew).trans (toLength_ofInt hn)
    refine ⟨⟨⟨_, _, _, hnew, isLength_ofInt hn⟩, fun key c index hc hindex => ?_⟩, hlen⟩
    rw [own?, Table.find?_insert, if_neg (ne_length_of_arrayIndex? hindex).symm] at hc
    rw [hlen]
    exact (h.below key c index hc hindex).trans_le hlonger
  · cases hu

/-- Properties are taken out, but not the length. -/
theorem filter {p : Key → Descriptor → Bool} (h : o.Measured)
    (hp : ∀ d : Descriptor, d.isConfigurable = false → p .length d = true) :
    { o with properties := o.properties.filter p }.Measured := by
  refine h.congr (fun x w e hlength => ⟨w, ?_⟩) fun key c index hc _ => .inl ⟨c, ?_⟩
  · exact Table.find?_filter_iff.mpr ⟨hlength, hp _ rfl⟩
  · exact (Table.find?_filter_iff.mp hc).1

/-- Every property changes its flags. -/
theorem map {f : Descriptor → Descriptor} (h : o.Measured)
    (hf : ∀ v w e, ∃ w', f (.data v w e false) = .data v w' e false) :
    { o with extensible := false, properties := o.properties.map f }.Measured := by
  refine h.congr (fun x w e hlength => ?_) fun key c index hc _ => .inl ?_
  · obtain ⟨w', hf'⟩ := hf (.number x) w e
    refine ⟨w', ?_⟩
    rw [own?] at hlength ⊢
    rw [Table.find?_map, hlength, Option.map_some, hf']
  · rw [own?, Table.find?_map, Option.map_eq_some_iff] at hc
    obtain ⟨c', hc', -⟩ := hc
    exact ⟨c', hc'⟩

end Measured

/-! ## Definitions -/

theorem define?_array (harray : o.kind.isArray = true) (h : o.define? key d = some o') :
    o.allows key d = true ∧ ∃ u, o.prepareArray? key d = some u
      ∧ o' = { u with properties := u.properties.insert key d } := by
  unfold define? at h
  split at h
  · next hallows =>
    obtain ⟨u, hu, rfl⟩ := Option.map_eq_some_iff.mp h
    exact ⟨hallows, u, hu, rfl⟩
  · cases h

/-- A property besides the length may be defined in every way that the object allows. -/
theorem Measured.define (h : o.Measured) (harray : o.kind.isArray = true) (hkey : key ≠ .length)
    (hdefine : o.define? key d = some o') : o'.Measured := by
  obtain ⟨-, u, hu, rfl⟩ := define?_array harray hdefine
  unfold prepareArray? at hu
  cases hindex : key.arrayIndex? with
  | none =>
    have hsame : u = o := by
      simp only [hindex, hkey, if_false] at hu
      split at hu <;> exact (Option.some.inj hu).symm
    subst hsame
    exact h.insert hkey fun index hi => by rw [hindex] at hi; cases hi
  | some index =>
    have hlimit : index + 1 ≤ 0xFFFFFFFF := arrayIndex?_lt hindex
    simp only [hindex] at hu
    split at hu
    · next hbehind =>
      obtain ⟨hmeasured, hlen⟩ := h.raise hlimit (by omega) hu
      refine hmeasured.insert hkey fun i hi => ?_
      cases hindex.symm.trans hi
      omega
    · next hinside =>
      cases hu
      refine h.insert hkey fun i hi => ?_
      cases hindex.symm.trans hi
      omega

theorem Measured.of_define (h : o.Measured) (harray : o.kind.isArray = true) (hkey : key ≠ .length)
    (d : Descriptor) : (o.define key d).1.Measured := by
  rw [define_eq]
  split
  · next hdefine => exact h.define harray hkey hdefine
  · exact h

/-- **A length keeps an array measured if it fits, and only then.** -/
theorem measured_define_iff (h : o.Measured) (harray : o.kind.isArray = true)
    (hdefine : o.define? key d = some o') :
    o'.Measured ↔ (key = .length → o.FitsLength d) := by
  by_cases hkey : key = .length
  swap
  · exact ⟨fun _ hk => absurd hk hkey, fun _ => h.define harray hkey hdefine⟩
  subst hkey
  obtain ⟨hallows, u, hu, rfl⟩ := define?_array harray hdefine
  have hown : { u with properties := u.properties.insert .length d }.own? .length = some d := by
    rw [own?, Table.find?_insert, if_pos rfl]
  constructor
  · rintro ⟨⟨x, w, e, hlength, hx⟩, hbelow⟩ -
    cases hown.symm.trans hlength
    cases hu
    refine ⟨x, rfl, hx, fun key c index hc hindex hfixed => ?_⟩
    rw [← arrayLength_eq hlength]
    refine hbelow key c index ?_ hindex
    rw [own?, Table.find?_insert, if_neg (ne_length_of_arrayIndex? hindex).symm]
    refine Table.find?_filter_iff.mpr ⟨hc, ?_⟩
    simp [hindex, hfixed]
  · intro hfits
    obtain ⟨x, hvalue, hx, hfixed⟩ := hfits rfl
    obtain ⟨y, w, e, hlength, -⟩ := h.length
    have hcut : u = o.truncateArray (toLength x) := by
      unfold prepareArray? at hu
      rw [show Key.length.arrayIndex? = none from rfl, hvalue] at hu
      exact (Option.some.inj hu).symm
    -- a length stays a property that cannot be removed
    have hconfigurable : d.isConfigurable = false := by
      unfold allows at hallows
      rw [hlength] at hallows
      exact (Descriptor.hardens_of_allows rfl hallows).isConfigurable
    cases d with
    | accessor => cases hvalue
    | data v w' e' c' =>
      cases hvalue
      cases (hconfigurable : c' = false)
      refine ⟨⟨x, w', e', hown, hx⟩, fun key c index hc hindex => ?_⟩
      rw [arrayLength_eq hown]
      rw [own?, Table.find?_insert, if_neg (ne_length_of_arrayIndex? hindex).symm, hcut] at hc
      obtain ⟨hc, hkept⟩ := Table.find?_filter_iff.mp hc
      simp only [hindex, Bool.or_eq_true, decide_eq_true_eq, Bool.not_eq_true'] at hkept
      exact hkept.elim id (hfixed key c index hc hindex)

/-- **Every value is stored as a length** that can be written, whether it is a length or not. -/
theorem define?_length {v : Value} {e : Bool} (hlength : o.own? .length = some (.data v true e false))
    (w : Value) :
    ∃ o', o.define? .length (.data w true e false) = some o'
      ∧ o'.own? .length = some (.data w true e false) := by
  have hallows : o.allows .length (.data w true e false) = true := by
    unfold allows
    rw [hlength]
    simp [Descriptor.allows, Descriptor.isConfigurable, Descriptor.isEnumerable]
  have hprepare : ∃ u, (if o.kind.isArray then o.prepareArray? .length (.data w true e false)
      else some o) = some u := by
    split
    · unfold prepareArray?
      rw [show Key.length.arrayIndex? = none from rfl]
      cases w <;> exact ⟨_, rfl⟩
    · exact ⟨o, rfl⟩
  obtain ⟨u, hu⟩ := hprepare
  refine ⟨{ u with properties := u.properties.insert .length (.data w true e false) }, ?_, ?_⟩
  · unfold define?
    simp only [hallows, if_true, hu, Option.map_some]
  · rw [own?, Table.find?_insert, if_pos rfl]

/-- A value that is no length leaves an array out of step, whatever its elements are. -/
theorem exists_not_measured {v w : Value} {e : Bool} (h : o.Measured) (harray : o.kind.isArray = true)
    (hlength : o.own? .length = some (.data v true e false))
    (hw : ∀ x, w = .number x → ¬ IsLength x) :
    ∃ o', o.define? .length (.data w true e false) = some o' ∧ ¬ o'.Measured := by
  obtain ⟨o', hdefine, -⟩ := define?_length hlength w
  refine ⟨o', hdefine, fun h' => ?_⟩
  obtain ⟨x, hvalue, hx, -⟩ := (measured_define_iff h harray hdefine).mp h' rfl
  exact hw x (Option.some.inj hvalue) hx

/-- An empty array takes a negative number as its length, and a text. -/
theorem exists_not_measured_emptyArray :
    (∃ o', (emptyArray none).define? .length (.data (.number (-1)) true false false) = some o'
      ∧ ¬ o'.Measured) ∧
    ∃ o', (emptyArray none).define? .length (.data (.text "1") true false false) = some o'
      ∧ ¬ o'.Measured := by
  have hnegative : ¬ IsLength (-1) := by
    unfold IsLength
    decide +kernel
  have hmeasured := measured_emptyArray none
  exact ⟨exists_not_measured hmeasured rfl rfl fun x hx => Value.number.inj hx ▸ hnegative,
    exists_not_measured hmeasured rfl rfl nofun⟩

/-- What is taken out of an array is not its length. -/
theorem Measured.delete (h : o.Measured) (key : Key) : (o.delete key).1.Measured := by
  unfold Object.delete
  split
  · exact h
  · next c hc =>
    split
    · next hconfigurable =>
      obtain ⟨x, w, e, hlength, -⟩ := h.length
      refine h.filter fun d _ => decide_eq_true ?_
      rintro rfl
      cases hlength.symm.trans hc
      cases hconfigurable
    · exact h

end Object

/-- Elements are put one behind the other into a measured array. -/
theorem yields_elements (id : ObjectId) (items : List Value) : ∀ {n : ℕ} {r : Realm} {o : Object},
    r.store.get id = .ok o → o.kind.isArray = true → o.Measured →
      ∃ o' r', Yields (forIn (items.zipIdx n) PUnit.unit fun p _ => do
          let _ ← define id (.ofIndex p.2) (.plain p.1)
          return .yield PUnit.unit) r () r' ∧
        r'.store.get id = .ok o' ∧ o'.kind.isArray = true ∧ o'.Measured := by
  induction items with
  | nil => exact fun found harray h => ⟨_, _, yields_forIn_nil _ _, found, harray, h⟩
  | cons v items ih =>
    intro n r o found harray h
    let o' : Object := (o.define (.ofIndex n) (.plain v)).1
    have harray' : o'.kind.isArray = true :=
      (congrArg Kind.isArray (o.kind_define _ _)).trans harray
    have h' : o'.Measured := h.of_define harray (Object.ofIndex_ne_length n) _
    have hdefine : Yields (define id (.ofIndex n) (.plain v)) r (o.define (.ofIndex n) (.plain v)).2
        { r with store := r.store.set id o' } := yields_changeStore (by
      unfold Store.define
      rw [found]
      rfl)
    have found' : (r.store.set id o').get id = .ok o' :=
      Store.get_set_self (Store.lt_size_of_get found)
    obtain ⟨o'', r'', hrest, h''⟩ := ih (n := n + 1) (r := { r with store := r.store.set id o' })
      found' harray' h'
    exact ⟨o'', r'', yields_forIn_cons (hdefine.bind (Yields.pure _ _)) hrest, h''⟩

/-- **Arrays begin measured**, with whatever elements they are made. -/
theorem yields_newArray_measured (items : List Value) (r : Realm) :
    ∃ o r', Yields (newArray items) r r.store.size r' ∧ r'.store.get r.store.size = .ok o ∧
      o.kind.isArray = true ∧ o.Measured := by
  let o₁ : Object := { prototype := some r.known.array, kind := .array }
  let o₂ := Object.emptyArray (some r.known.array)
  have hget : (Store.mk (r.store.objects.push o₁)).get r.store.size = .ok o₁ := Store.get_push_size o₁
  have hdefine : o₁.define? .length newLength = some o₂ := rfl
  let r₂ : Realm := { r with store := Store.set ⟨r.store.objects.push o₁⟩ r.store.size o₂ }
  have hget₂ : r₂.store.get r.store.size = .ok o₂ := Store.get_set_self (Store.lt_size_of_get hget)
  obtain ⟨o, r', hfilled, found, harray, h⟩ :=
    yields_elements r.store.size items (n := 0) hget₂ rfl (Object.measured_emptyArray _)
  refine ⟨o, r', ?_, found, harray, h⟩
  refine (yields_get r).bind ((yields_allocate _ _ r).bind ?_)
  exact (yields_define hget hdefine).bind (hfilled.bind (Yields.pure _ _))

/-! ## Operations -/

namespace Store

variable {s : Store} {id : ObjectId} {o : Object} {c : Change}

/-- The operation gives the object no length that does not fit. -/
def Change.Fits (c : Change) (id : ObjectId) (o : Object) : Prop :=
  ∀ d o', c = .define id .length d → o.define? .length d = some o' → o.FitsLength d

/-- What an operation makes of an array. -/
theorem Change.measured_result (harray : o.kind.isArray = true) (h : o.Measured)
    (htarget : c.target = some id) (hfits : c.Fits id o) :
    (c.result o).kind.isArray = true ∧ (c.result o).Measured := by
  cases c with
  | alloc => cases htarget
  | define id' key d =>
    cases htarget
    refine ⟨(congrArg Kind.isArray (o.kind_define key d)).trans harray, ?_⟩
    simp only [Change.result, Object.define_eq]
    split
    · next o' hdefine =>
      refine (Object.measured_define_iff h harray hdefine).mpr ?_
      rintro rfl
      exact hfits d o' rfl hdefine
    · exact h
  | delete id' key =>
    exact ⟨(congrArg Kind.isArray (o.kind_delete key)).trans harray, h.delete key⟩
  | setPrototype | preventExtensions => exact ⟨harray, h.length, h.below⟩
  | sealOff => exact ⟨harray, h.map fun _ w _ => ⟨w, rfl⟩⟩
  | freeze => exact ⟨harray, h.map fun _ _ _ => ⟨false, rfl⟩⟩

/-- None of the operations, one after another, gives the object a length that does not fit. -/
def AllFit (id : ObjectId) : Store → List Change → Prop
  | _, [] => True
  | s, c :: cs => (∀ o, s.get id = .ok o → c.Fits id o) ∧ AllFit id (s.after c) cs

end Store

/-- **An array stays measured** through any sequence of operations, on this and on other objects and
whichever of them fail, in which every length that it takes fits. -/
theorem measured_afterAll {id : ObjectId} (cs : List Store.Change) : ∀ {s : Store} {o : Object},
    s.get id = .ok o → o.kind.isArray = true → o.Measured → s.AllFit id cs →
      ∃ o', (s.afterAll cs).get id = .ok o' ∧ o'.kind.isArray = true ∧ o'.Measured := by
  induction cs with
  | nil => exact fun found harray h _ => ⟨_, found, harray, h⟩
  | cons c cs ih =>
    intro s o found harray h hfits
    obtain hsame | ⟨htarget, hresult⟩ := Store.get_after c found
    · exact ih hsame harray h hfits.2
    · obtain ⟨harray', h'⟩ := Store.Change.measured_result harray h htarget (hfits.1 o found)
      exact ih hresult harray' h' hfits.2

/-- An empty array is made longer, gets an element behind its end, and is frozen. -/
theorem measured_afterAll_emptyArray :
    ∃ o', ((Store.mk #[.emptyArray none]).afterAll
        [.define 0 .length (.data (.number 3) true false false), .define 0 (.ofIndex 7) (.plain .null),
          .freeze 0]).get 0 = .ok o' ∧ o'.kind.isArray = true ∧ o'.Measured := by
  have hmeasured := Object.measured_emptyArray none
  have hempty : (Object.emptyArray none).arrayLength = 0 := by decide +kernel
  have hthree : Object.IsLength 3 := by
    unfold Object.IsLength
    decide +kernel
  have hfits : (Object.emptyArray none).FitsLength (.data (.number 3) true false false) := by
    refine ⟨3, rfl, hthree, fun key c index hc hindex _ => ?_⟩
    have hbelow := hmeasured.below key c index hc hindex
    omega
  refine measured_afterAll _ rfl rfl hmeasured ⟨?_, ?_, ?_, trivial⟩
  · intro o ho d o' hc _
    rw [← Except.ok.inj ho, ← (Store.Change.define.inj hc).2.2]
    exact hfits
  · intro o _ d o' hc _
    exact absurd (Store.Change.define.inj hc).2.1 (Object.ofIndex_ne_length 7)
  · exact fun _ _ _ _ hc => nomatch hc

/-- **A property that stores a value and cannot be removed** does so for ever, as the length of every
array does. -/
theorem own?_data_afterAll {s : Store} {id : ObjectId} {o : Object} {key : Key} {v : Value} {w e : Bool}
    (found : s.get id = .ok o) (hown : o.own? key = some (.data v w e false)) (cs : List Store.Change) :
    ∃ o' v' w', (s.afterAll cs).get id = .ok o' ∧ o'.own? key = some (.data v' w' e false) := by
  refine Store.afterAll_keeps (P := fun s' => ∃ o' v' w', s'.get id = .ok o' ∧
    o'.own? key = some (.data v' w' e false)) ?_ cs s ⟨o, v, w, found, hown⟩
  rintro s₁ s₂ c ⟨o₁, v₁, w₁, found₁, hown₁⟩ hstep
  obtain ⟨o₂, found₂, hhard, -⟩ := hstep.hardens found₁
  obtain ⟨d, hd, hdhard⟩ := hhard.properties key _ hown₁ rfl
  cases d with
  | accessor => exact hdhard.elim
  | data v₂ w₂ e₂ c₂ =>
    obtain ⟨rfl, rfl, -⟩ := hdhard
    exact ⟨o₂, v₂, w₂, found₂, hd⟩

end Stasis
