import Stasis.Heap.Object

/-!
# Definitions of properties that come off

* `Object.define?`: the object with a property defined; nothing if that is refused.
* `Object.define_eq`: `define` answers so, and leaves the object as it was where it refuses.
* `Object.Readies`: what an array does before the property is put into its table.
* `Object.readies_of_define?`: every definition that comes off does that and puts the property in.
-/

namespace Stasis.Object

variable (o : Object)

/-- The array with another length, if its length can be written to. -/
def setArrayLength? (n : Nat) : Option Object :=
  match o.own? .length with
  | some (.data _ true e c) =>
    some { o with properties :=
      o.properties.insert .length (.data (.number (Number.ofInt n)) true e c) }
  | _ => none

/-- The array when an own property can be defined, if it can. -/
def prepareArray? (key : Key) (d : Descriptor) : Option Object :=
  match key.arrayIndex? with
  | some index => if o.arrayLength ≤ index then o.setArrayLength? (index + 1) else some o
  | none =>
    match d.value? with
    | some (.number x) => if key = .length then some (o.truncateArray (toLength x)) else some o
    | _ => some o

/-- The object with an own property defined, if that is allowed. -/
def define? (key : Key) (d : Descriptor) : Option Object :=
  if o.allows key d then
    let prepared := if o.kind.isArray then o.prepareArray? key d else some o
    prepared.map fun o => { o with properties := o.properties.insert key d }
  else none

theorem setArrayLength_eq (n : Nat) :
    o.setArrayLength n = match o.setArrayLength? n with
      | some o' => (o', true)
      | none => (o, false) := by
  unfold setArrayLength setArrayLength?
  rcases o.own? .length with _ | ⟨_, _ | _, _, _⟩ | _ <;> rfl

theorem prepareArray_eq (key : Key) (d : Descriptor) :
    o.prepareArray key d = match o.prepareArray? key d with
      | some o' => (o', true)
      | none => (o, false) := by
  unfold prepareArray prepareArray?
  cases key.arrayIndex? with
  | some index =>
    by_cases hbehind : o.arrayLength ≤ index
    · simp only [if_pos hbehind, setArrayLength_eq]
    · simp only [if_neg hbehind]
  | none =>
    cases d.value? with
    | none => rfl
    | some v =>
      cases v with
      | number x => by_cases hkey : key = .length <;> simp only [hkey, if_true, if_false]
      | _ => rfl

/-- **A definition that is refused leaves the object as it was**, though an array changes before the
property is put into its table. -/
theorem define_eq (key : Key) (d : Descriptor) :
    o.define key d = match o.define? key d with
      | some o' => (o', true)
      | none => (o, false) := by
  unfold define define?
  cases o.allows key d with
  | false => rfl
  | true =>
    cases o.kind.isArray with
    | false => rfl
    | true =>
      simp only [if_true, prepareArray_eq]
      cases o.prepareArray? key d <;> rfl

/-! ## Before the property is put in -/

/-- The key denotes an index of the array that is not below its length. -/
structure IsBehind (key : Key) (index : Nat) : Prop where
  array : o.kind.isArray = true
  denotes : key.arrayIndex? = some index
  behind : o.arrayLength ≤ index

/-- The definition gives an array a number as its length. -/
structure SetsLength (key : Key) (d : Descriptor) (x : Float) : Prop where
  array : o.kind.isArray = true
  key : key = .length
  value : d.value? = some (.number x)

/-- What an object does before a property is put into its table. An array makes room for an index
behind its end, and takes elements out for a shorter length; nothing else happens. -/
inductive Readies (key : Key) (d : Descriptor) : Object → Prop
  | lengthened {index : Nat} {v : Value} {e c : Bool} (hbehind : o.IsBehind key index)
    (hlength : o.own? .length = some (.data v true e c)) :
    Readies key d { o with
      properties := o.properties.insert .length
        (.data (.number (Number.ofInt (index + 1 : Nat))) true e c) }
  | shortened {x : Float} (hsets : o.SetsLength key d x) :
    Readies key d (o.truncateArray (toLength x))
  | same (hbehind : ∀ index, ¬ o.IsBehind key index) (hsets : ∀ x, ¬ o.SetsLength key d x) :
    Readies key d o

variable {o} {u o' : Object} {key : Key} {d : Descriptor}

theorem ne_length_of_arrayIndex? {index : Nat} (h : key.arrayIndex? = some index) :
    key ≠ .length := by
  rintro rfl
  cases h

theorem readies_of_prepareArray? (harray : o.kind.isArray = true)
    (h : o.prepareArray? key d = some u) : o.Readies key d u := by
  unfold prepareArray? at h
  split at h
  · next index hindex =>
    split at h
    · next hbehind =>
      unfold setArrayLength? at h
      split at h
      · next v e c hlength =>
        cases h
        exact .lengthened ⟨harray, hindex, hbehind⟩ hlength
      · cases h
    · next hbefore =>
      cases h
      refine .same (fun i hb => hbefore ?_) fun x hs => ne_length_of_arrayIndex? hindex hs.key
      cases hindex.symm.trans hb.denotes
      exact hb.behind
  · next hindex =>
    have hbehind : ∀ index, ¬ o.IsBehind key index := by
      intro index hb
      cases hindex.symm.trans hb.denotes
    split at h
    · next x hvalue =>
      split at h
      · next hkey =>
        cases h
        exact .shortened ⟨harray, hkey, hvalue⟩
      · next hkey =>
        cases h
        exact .same hbehind fun y hs => hkey hs.key
    · next hvalue =>
      cases h
      exact .same hbehind fun y hs => hvalue y hs.value

/-- **What comes of a definition**: what an array does first, and the property in its place. -/
theorem readies_of_define? (h : o.define? key d = some o') :
    o.allows key d = true ∧ ∃ u, o.Readies key d u ∧
      o' = { u with properties := u.properties.insert key d } := by
  unfold define? at h
  split at h
  · next hallows =>
    obtain ⟨u, hu, rfl⟩ := Option.map_eq_some_iff.mp h
    refine ⟨hallows, u, ?_, rfl⟩
    split at hu
    · next harray => exact readies_of_prepareArray? harray hu
    · next hother =>
      cases hu
      exact .same (fun _ hb => hother hb.array) fun _ hs => hother hs.array
  · cases h

end Stasis.Object
