import Mathlib
import Stasis.RoundTrip
import Stasis.Proofs.Properties
import Stasis.Proofs.Store

/-!
# Values that compare as alike

Two objects are taken for alike as soon as they are met, before what they hold has been compared. If
the comparison comes to an end without a difference, that was right: the pairs that were met are
alike in everything, with what they refer to among the pairs again. And it comes to an end, as there
are only so many pairs to meet; but for a message that shows a value for ever.

* `Value.Alike`, `Kind.Alike`, `Descriptor.Alike`, `Object.Alike`: alike, up to a relation of the
  objects that are referred to.
* `Realm.Likens`: a relation that holds between alike objects only.
* `Realm.Finds`: what a part of a comparison finds out, and that it ends.
* `Realm.finds_compareObjects`: two objects, as long as there are pairs to meet.
* `likens_of_compareValues`: a comparison without a difference.
* `exists_unshown`: a comparison ends, unless a value that it has to show cannot be shown.
* `endless_compareValues`: there is such a value, and a comparison that does not end.
-/

namespace Stasis

/-! ## Alike -/

/-- Objects are related, and other values are the same up to the sign of zero. -/
def Value.Alike (R : ObjectId → ObjectId → Prop) : Value → Value → Prop
  | .object a, .object b => R a b
  | v, w => v.sameValueZero w = true

/-- What objects hold besides properties, in order. A promise that is pending corresponds to one that
is rejected, whatever for; other kinds hold nothing that is looked at. -/
def Kind.Alike (R : ObjectId → ObjectId → Prop) : Kind → Kind → Prop
  | .map a, .map b =>
    List.Forall₂ (fun p q => p.1.toValue.Alike R q.1.toValue ∧ p.2.Alike R q.2) a.entries b.entries
  | .set a, .set b => List.Forall₂ (fun k k' => k.toValue.Alike R k'.toValue) a.keys b.keys
  | .date x, .date y => (Value.number x).sameValueZero (.number y) = true
  | .regexp source flags, .regexp source' flags' => source = source' ∧ flags = flags'
  | .wrapper v, .wrapper w => v.Alike R w
  | .buffer a, .buffer b => a = b
  | .bytes a offset length, .bytes b offset' length' =>
    (offset = offset' ∧ length = length') ∧ R a b
  | .promise .pending, .promise (.rejected _) => True
  | .promise (.fulfilled v), .promise (.fulfilled w)
  | .promise (.rejected v), .promise (.rejected w) => v.Alike R w
  | .promise _, .promise _ => False
  | k, k' => k.label = k'.label

/-- Properties with the same flags. -/
def Descriptor.Alike (R : ObjectId → ObjectId → Prop) : Descriptor → Descriptor → Prop
  | .data v w e c, .data v' w' e' c' => (w = w' ∧ e = e' ∧ c = c') ∧ v.Alike R v'
  | .accessor g s e c, .accessor g' s' e' c' =>
    (e = e' ∧ c = c') ∧ Option.Rel R g g' ∧ Option.Rel R s s'
  | _, _ => False

/-- Objects that are alike in everything that can be observed: their own properties have the same
keys in the same order. -/
structure Object.Alike (R : ObjectId → ObjectId → Prop) (o o' : Object) : Prop where
  label : o.kind.label = o'.kind.label
  extensible : o.extensible = o'.extensible
  prototype : Option.Rel R o.prototype o'.prototype
  kind : o.kind.Alike R o'.kind
  properties : List.Forall₂ (fun p q => p.1 = q.1 ∧ p.2.Alike R q.2) o.ownEntries o'.ownEntries

namespace Realm

variable (r : Realm)

/-- The numbers are those of objects that are alike. -/
def AlikeAt (R : ObjectId → ObjectId → Prop) (a b : ObjectId) : Prop :=
  ∃ o o', r.store.get a = .ok o ∧ r.store.get b = .ok o' ∧ o.Alike R o'

/-- The relation holds between alike objects only, and between objects and themselves. -/
def Likens (R : ObjectId → ObjectId → Prop) : Prop := ∀ a b, R a b → a = b ∨ r.AlikeAt R a b

/-! ## Pairs that have been met -/

/-- The relation holds of the pairs that have been met, and between objects and themselves. -/
structure Covers (met : MetPairs) (R : ObjectId → ObjectId → Prop) : Prop where
  refl : ∀ a, R a a
  met : ∀ p ∈ met, R p.1 p.2

theorem Covers.mono {met met' : MetPairs} {R : ObjectId → ObjectId → Prop} (h : Covers met' R)
    (hmet : met ⊆ met') : Covers met R := ⟨h.refl, fun p hp => h.met p (hmet hp)⟩

/-- The number of pairs of objects that have not been met. -/
def unmet (met : MetPairs) : ℕ :=
  ((Finset.range r.store.size ×ˢ Finset.range r.store.size).filter (· ∉ met)).card

variable {r} {met met' : MetPairs}

theorem unmet_le (h : met ⊆ met') : r.unmet met' ≤ r.unmet met :=
  Finset.card_le_card (Finset.monotone_filter_right _ fun _ _ hp hm => hp (h hm))

theorem unmet_nil_le : r.unmet [] ≤ r.store.size * r.store.size :=
  (Finset.card_filter_le ..).trans_eq (by rw [Finset.card_product, Finset.card_range])

/-- A pair of objects that is met leaves fewer to meet. -/
theorem unmet_cons_lt {a b : ObjectId} (ha : a < r.store.size) (hb : b < r.store.size)
    (hnew : (a, b) ∉ met) : r.unmet ((a, b) :: met) < r.unmet met := by
  refine Finset.card_lt_card (Finset.ssubset_iff_of_subset ?_ |>.mpr ⟨(a, b), ?_, ?_⟩)
  · exact Finset.monotone_filter_right _ fun _ _ hp hm => hp (List.mem_cons_of_mem _ hm)
  · simp [ha, hb, hnew]
  · simp

/-! ## Parts of a comparison -/

variable {α : Type} {P Q : (ObjectId → ObjectId → Prop) → Prop} {n : ℕ}

variable (r) in
/-- How a part of a comparison ends that has begun with some pairs: with more pairs, or with a
difference, or with a value that cannot be shown. Under every relation that covers the pairs then, the
new ones are alike, and `P` is true. -/
inductive Finding (P : (ObjectId → ObjectId → Prop) → Prop) (met : MetPairs) :
    Except Fault (α × MetPairs) → Prop
  | alike (a : α) {met' : MetPairs} (hmet : met ⊆ met')
    (h : ∀ R, Covers met' R → (∀ p ∈ met', p ∉ met → r.AlikeAt R p.1 p.2) ∧ P R) :
    Finding P met (.ok (a, met'))
  | differ (cause : EngineError) : Finding P met (.error (.error cause))
  | unshown (u : Value) (h : r.show? u = none) : Finding P met (.error .outOfFuel)

variable (r) in
/-- A part of a comparison that ends, and finds out `P`, while fewer than `n` pairs are left to
meet. -/
def Finds (n : ℕ) (x : Check α) (P : (ObjectId → ObjectId → Prop) → Prop) : Prop :=
  ∀ met, r.unmet met < n → r.Finding P met (x.run met)

section Finds

variable {x : Check Unit} {f : Unit → Check Unit}

theorem Finds.imp (h : r.Finds n x P) (hPQ : ∀ R, P R → Q R) : r.Finds n x Q := by
  intro met hn
  have hx := h met hn
  generalize x.run met = out at hx
  cases hx with
  | alike a hmet h => exact .alike a hmet fun R hR => ⟨(h R hR).1, hPQ R (h R hR).2⟩
  | differ cause => exact .differ cause
  | unshown u h => exact .unshown u h

theorem finds_pure (h : ∀ R, (∀ a, R a a) → P R) : r.Finds n (pure ()) P :=
  fun _ _ => .alike () (List.Subset.refl _) fun R hR =>
    ⟨fun _ hp hnew => absurd hp hnew, h R hR.refl⟩

/-- One part after another, which may count on what the first one has found. -/
theorem Finds.bind (hx : r.Finds n x P) (hf : r.Finds n (f ()) fun R => P R → Q R) :
    r.Finds n (x >>= f) Q := by
  intro met hn
  rw [StateT.run_bind]
  have hfirst := hx met hn
  generalize x.run met = out at hfirst
  cases hfirst with
  | differ cause => exact .differ cause
  | unshown u h => exact .unshown u h
  | @alike _ met' hmet h =>
    have hnext := hf met' ((unmet_le hmet).trans_lt hn)
    show r.Finding _ met ((f ()).run met')
    generalize (f ()).run met' = out at hnext
    cases hnext with
    | differ cause => exact .differ cause
    | unshown u h => exact .unshown u h
    | alike _ hmet' h' =>
      refine .alike () (List.Subset.trans hmet hmet') fun R hR => ?_
      obtain ⟨hnew, hP⟩ := h R (hR.mono hmet')
      obtain ⟨hnew', hQ⟩ := h' R hR
      refine ⟨fun p hp hp₀ => ?_, hQ hP⟩
      -- each new pair was met by one of the parts, which answers for it
      by_cases hp' : p ∈ met'
      · exact hnew p hp' hp₀
      · exact hnew' p hp hp'

theorem finds_differ (path what : String) : r.Finds n (differ path what : Check α) P :=
  fun _ _ => .differ _

theorem finds_checkThat {same : Bool} (path what : String) (h : same = true → ∀ R, P R) :
    r.Finds n (checkThat same path what) P := by
  cases same with
  | true => exact finds_pure fun R _ => h rfl R
  | false => exact finds_differ path what

/-- What comes after a check may count on it. -/
theorem finds_checkThat_bind {same : Bool} (path what : String)
    (hf : same = true → r.Finds n (f ()) P) :
    r.Finds n (checkThat same path what >>= f) P := by
  cases same with
  | true => exact hf rfl
  | false => exact fun _ _ => .differ _

/-- A message that shows a value. -/
theorem finds_shown (v : Value) {f : String → Check α} (hf : ∀ s, r.Finds n (f s) P) :
    r.Finds n (r.checkedText v >>= f) P := by
  unfold checkedText
  cases h : r.show? v with
  | none => exact fun _ _ => .unshown v h
  | some s => exact hf s

/-- A comparison for each item of a list. -/
theorem finds_forIn {γ : Type} {g : γ → Unit → Check (ForInStep Unit)} {x : γ → Check Unit}
    {P : γ → (ObjectId → ObjectId → Prop) → Prop} (l : List γ)
    (hg : ∀ c, g c () = x c >>= fun _ => pure (.yield ()))
    (hx : ∀ c ∈ l, r.Finds n (x c) (P c)) :
    r.Finds n (forIn l () g) fun R => ∀ c ∈ l, P c R := by
  induction l with
  | nil => exact finds_pure fun _ _ => List.forall_mem_nil _
  | cons c l ih =>
    obtain ⟨hc, hl⟩ := List.forall_mem_cons.mp hx
    rw [List.forIn_cons, hg, bind_assoc]
    simp only [pure_bind]
    exact hc.bind ((ih hl).imp fun R hl hc => List.forall_mem_cons.mpr ⟨hc, hl⟩)

theorem run_meet (a b : ObjectId) (met : MetPairs) :
    (meet a b).run met = if (a, b) ∈ met then .ok (false, met) else .ok (true, (a, b) :: met) := by
  have hget : ∀ {β : Type} (f : MetPairs → Check β), (get >>= f).run met = (f met).run met :=
    fun _ => rfl
  unfold meet
  rw [hget]
  by_cases hmem : (a, b) ∈ met
  · rw [if_pos hmem, if_pos (List.contains_iff_mem.mpr hmem)]
    rfl
  · rw [if_neg hmem, if_neg (hmem ∘ List.contains_iff_mem.mp)]
    rfl

/-- Two objects are taken for alike once they have been met, and are compared when they are met. -/
theorem finds_objects {a b : ObjectId} {rest : Object → Object → Check Unit}
    (h : ∀ o o', r.store.get a = .ok o → r.store.get b = .ok o' →
      r.Finds n (rest o o') fun R => o.Alike R o') :
    r.Finds (n + 1) (do
      if !(← meet a b) then return ()
      let o ← r.checkedObject a
      let o' ← r.checkedObject b
      rest o o') fun R => R a b := by
  intro met hn
  rw [StateT.run_bind, run_meet]
  by_cases hmem : (a, b) ∈ met
  · rw [if_pos hmem]
    exact .alike () (List.Subset.refl _) fun R hR =>
      ⟨fun _ hp hnew => absurd hp hnew, hR.met (a, b) hmem⟩
  rw [if_neg hmem]
  show r.Finding _ met ((r.checkedObject a >>= fun o => r.checkedObject b >>= rest o).run
    ((a, b) :: met))
  unfold checkedObject
  cases ha : r.store.get a with
  | error cause => exact .differ _
  | ok o =>
    cases hb : r.store.get b with
    | error cause => exact .differ _
    | ok o' =>
      -- the pair is counted out before what is behind it is compared
      have hfewer := unmet_cons_lt (Store.lt_size_of_get ha) (Store.lt_size_of_get hb) hmem
      have hrest := h o o' ha hb ((a, b) :: met) (by omega)
      show r.Finding _ met ((rest o o').run ((a, b) :: met))
      generalize (rest o o').run ((a, b) :: met) = out at hrest
      cases hrest with
      | differ cause => exact .differ cause
      | unshown u h => exact .unshown u h
      | alike _ hmet h =>
        refine .alike () (fun p hp => hmet (List.mem_cons_of_mem _ hp)) fun R hR =>
          ⟨fun p hp hnew => ?_, hR.met (a, b) (hmet List.mem_cons_self)⟩
        by_cases hsame : p = (a, b)
        · rw [hsame]
          exact ⟨o, o', ha, hb, (h R hR).2⟩
        · refine (h R hR).1 p hp fun hp' => ?_
          exact (List.mem_cons.mp hp').elim hsame hnew

end Finds

/-! ## What is compared -/

section Parts

variable {values : String → Value → Value → Check Unit}
  {objects : String → ObjectId → ObjectId → Check Unit}

theorem finds_compareWith (hobjects : ∀ path a b, r.Finds n (objects path a b) fun R => R a b)
    (path : String) (v w : Value) :
    r.Finds n (r.compareWith objects path v w) fun R => v.Alike R w := by
  unfold compareWith
  split
  · exact hobjects path _ _
  · next hne =>
    have halike : ∀ R, v.Alike R w ↔ v.sameValueZero w = true := fun R => by
      unfold Value.Alike
      split
      · next a b => exact (hne a b rfl rfl).elim
      · rfl
    simp only [halike]
    split
    · next h => exact finds_pure fun _ _ => h
    · exact finds_shown v fun s => finds_shown w fun s' => finds_differ path _

/-- The values of two lists, compared one after another. -/
theorem forall₂_of_zipIdx {γ δ : Type} {p : γ → δ → Prop} {l : List γ} {l' : List δ}
    (hlen : l.length = l'.length) (h : ∀ c ∈ (l.zip l').zipIdx, p c.1.1 c.1.2) :
    List.Forall₂ p l l' := by
  refine List.forall₂_iff_zip.mpr ⟨hlen, fun {c d} hmem => ?_⟩
  obtain ⟨i, hi⟩ := List.getElem?_of_mem hmem
  exact h ((c, d), i) (List.mk_mem_zipIdx_iff_getElem?.mpr hi)

theorem Buffer.eq_of_sameAs {a b : Buffer} (h : a.sameAs b = true) : a = b := by
  unfold Buffer.sameAs at h
  simp only [Bool.and_eq_true, beq_iff_eq] at h
  obtain ⟨⟨hbytes, hmax⟩, hdetached⟩ := h
  cases a
  cases b
  simp_all [ByteArray.ext_iff]

/-- An object that may be absent, compared as a value. -/
theorem related_of_alike {R : ObjectId → ObjectId → Prop} {p p' : Option ObjectId}
    (h : ((p.map Value.object).getD .undefined).Alike R ((p'.map Value.object).getD .undefined)) :
    Option.Rel R p p' := by
  cases p with
  | none =>
    cases p' with
    | none => exact .none
    | some b => cases (h : false = true)
  | some a =>
    cases p' with
    | none => cases (h : false = true)
    | some b => exact .some h

theorem finds_compareKinds
    (hvalues : ∀ path v w, r.Finds n (values path v w) fun R => v.Alike R w) (path : String)
    {k k' : Kind} (hlabel : k.label = k'.label) :
    r.Finds n (compareKinds values path k k') fun R => k.Alike R k' := by
  unfold compareKinds
  split
  · next a b =>
    refine finds_checkThat_bind _ _ fun hsize => ?_
    -- an entry has two values, so its two comparisons are put together
    let Same (c : ((CollectionKey × Value) × CollectionKey × Value) × ℕ)
        (R : ObjectId → ObjectId → Prop) : Prop :=
      c.1.1.1.toValue.Alike R c.1.2.1.toValue ∧ c.1.1.2.Alike R c.1.2.2
    refine (finds_forIn (P := Same) _ (fun c => (bind_assoc ..).symm) fun c _ =>
      (hvalues _ _ _).bind ((hvalues _ _ _).imp fun R hv hk => ⟨hk, hv⟩)).bind
        (finds_pure fun R _ h => ?_)
    exact forall₂_of_zipIdx (beq_iff_eq.mp hsize) h
  · next a b =>
    refine finds_checkThat_bind _ _ fun hsize => ?_
    refine (finds_forIn _ (fun c => rfl) fun c _ => hvalues _ _ _).bind
      (finds_pure fun R _ h => forall₂_of_zipIdx ?_ h)
    rw [Table.keys, Table.keys, List.length_map, List.length_map]
    exact beq_iff_eq.mp hsize
  · -- times
    exact finds_checkThat _ _ fun h _ => h
  · -- patterns
    exact finds_checkThat _ _ fun h _ => by simpa [Kind.Alike] using h
  · -- wrapped values
    exact hvalues _ _ _
  · -- buffers
    exact finds_checkThat _ _ fun h _ => Buffer.eq_of_sameAs h
  · -- windows
    refine finds_checkThat_bind _ _ fun hwindow => (hvalues _ _ _).imp fun R h => ⟨?_, h⟩
    simpa using hwindow
  · -- promises: pending and rejected, both fulfilled, both rejected, and in different states
    exact finds_pure fun _ _ => trivial
  · exact hvalues _ _ _
  · exact hvalues _ _ _
  · exact finds_differ _ _
  · -- other kinds hold nothing to compare, and their labels are the same
    refine finds_pure fun R _ => ?_
    unfold Kind.Alike
    split <;> grind

theorem finds_compareDescriptors
    (hvalues : ∀ path v w, r.Finds n (values path v w) fun R => v.Alike R w) (path : String)
    (d d' : Descriptor) :
    r.Finds n (compareDescriptors values path d d') fun R => d.Alike R d' := by
  unfold compareDescriptors
  split
  · refine finds_checkThat_bind _ _ fun hflags => (hvalues _ _ _).imp fun R h => ⟨?_, h⟩
    simpa [and_assoc] using hflags
  · refine finds_checkThat_bind _ _ fun hflags => (hvalues _ _ _).bind
      ((hvalues _ _ _).imp fun R hset hget => ⟨?_, related_of_alike hget, related_of_alike hset⟩)
    simpa using hflags
  · exact finds_differ _ _

end Parts

end Realm

theorem Object.map_fst_ownEntries (o : Object) : o.ownEntries.map Prod.fst = o.ownKeys := by
  have h := map_fst_entriesOf (o := o) (f := id) fun k hk => mem_ownKeys_iff.mp hk
  rwa [← map_ownEntries, List.map_map] at h

theorem Object.forall₂_ownEntries {o o' : Object} (h : o.ownKeys = o'.ownKeys) :
    List.Forall₂ (fun p q => p.1 = q.1) o.ownEntries o'.ownEntries := by
  have hkeys : List.Forall₂ Eq (o.ownEntries.map Prod.fst) (o'.ownEntries.map Prod.fst) := by
    rw [map_fst_ownEntries, map_fst_ownEntries, h, List.forall₂_eq_eq_eq]
  exact List.forall₂_map_left_iff.mp (List.forall₂_map_right_iff.mp hkeys)

namespace Realm

variable {r : Realm}

/-- **Two objects are compared in the number of steps that there are pairs left to meet.** By
induction on the steps: the pair that is met is counted out before anything behind it is looked at. -/
theorem finds_compareObjects (steps : ℕ) : ∀ path a b,
    r.Finds steps (r.compareObjects steps path a b) fun R => R a b := by
  induction steps with
  | zero => exact fun _ _ _ _ hn => absurd hn (Nat.not_lt_zero _)
  | succ steps ih =>
    intro path a b
    have hvalues := finds_compareWith ih
    unfold compareObjects
    split
    · next hsame => exact finds_pure fun R hrefl => beq_iff_eq.mp hsame ▸ hrefl a
    refine finds_objects fun o o' _ _ => ?_
    refine finds_checkThat_bind _ _ fun hlabel => finds_checkThat_bind _ _ fun hextensible => ?_
    refine (hvalues _ _ _).bind ?_
    refine (finds_compareKinds hvalues _ (beq_iff_eq.mp hlabel)).bind ?_
    refine finds_checkThat_bind _ _ fun hkeys => ?_
    refine (finds_forIn _ (fun c => rfl) fun c _ =>
      finds_compareDescriptors hvalues _ _ _).bind ?_
    refine finds_pure fun R _ hproperties hkind hprototype => ?_
    obtain ⟨hlen, hsame⟩ :=
      List.forall₂_iff_zip.mp (Object.forall₂_ownEntries (of_decide_eq_true hkeys))
    exact ⟨beq_iff_eq.mp hlabel, beq_iff_eq.mp hextensible, related_of_alike hprototype, hkind,
      List.forall₂_iff_zip.mpr ⟨hlen, fun hmem => ⟨hsame hmem, hproperties _ hmem⟩⟩⟩

theorem finds_compareValues (path : String) (v w : Value) :
    r.Finds r.compareLimit (r.compareValues path v w) fun R => v.Alike R w :=
  finds_compareWith (finds_compareObjects _) path v w

end Realm

/-! ## Comparisons from the beginning -/

variable {r : Realm} {path : String} {v w : Value}

theorem finding_compareValues (r : Realm) (path : String) (v w : Value) :
    r.Finding (fun R => v.Alike R w) [] ((r.compareValues path v w).run []) := by
  refine Realm.finds_compareValues path v w [] (Realm.unmet_nil_le.trans_lt ?_)
  unfold Realm.compareLimit
  omega

/-- **A comparison without a difference is right.** The pairs that it has met, and objects with
themselves, make up a relation between alike objects, under which the two values are alike. -/
theorem likens_of_compareValues {met : MetPairs}
    (h : (r.compareValues path v w).run [] = .ok ((), met)) :
    ∃ R, r.Likens R ∧ v.Alike R w := by
  have hfinding := finding_compareValues r path v w
  rw [h] at hfinding
  cases hfinding with
  | alike _ _ hfound =>
    let R (a b : ObjectId) : Prop := a = b ∨ (a, b) ∈ met
    obtain ⟨hmet, halike⟩ := hfound R ⟨fun _ => .inl rfl, fun _ hp => .inr hp⟩
    exact ⟨R, fun a b hab => hab.imp_right fun hm => hmet (a, b) hm List.not_mem_nil, halike⟩

/-- **A comparison ends**, unless a value that it has to show cannot be shown. -/
theorem exists_unshown (h : (r.compareValues path v w).run [] = .error .outOfFuel) :
    ∃ u, r.show? u = none := by
  have hfinding := finding_compareValues r path v w
  rw [h] at hfinding
  cases hfinding with
  | unshown u hu => exact ⟨u, hu⟩

/-- **An error whose name or message is no text cannot be shown, in any number of steps.** Where it
has become something else than an object, there is no end to the message that should say so. -/
theorem endless_compareValues {id : ObjectId} {o : Object} (hget : r.store.get id = .ok o)
    (hkind : o.kind = .error) (hline : r.errorLine? id = none) (hw : w.isObject = false) :
    (∀ steps, r.showFrom? steps 0 [] true (.object id) = none) ∧
      (r.compareValues path (.object id) w).run [] = .error .outOfFuel := by
  have hnever : ∀ steps, r.showFrom? steps 0 [] true (.object id) = none := by
    rintro (_ | steps)
    · rfl
    · simp [Realm.showFrom?, hget, hkind, hline]
  refine ⟨hnever, ?_⟩
  have hshow : r.checkedText (.object id) = throw .outOfFuel := by
    unfold Realm.checkedText Realm.show?
    rw [hnever]
  unfold Realm.compareValues Realm.compareWith
  cases w with
  | object => cases hw
  | _ =>
    simp only [hshow]
    rfl

/-- An error without a name and a message has become a number. -/
example (r : Realm) :
    ({ r with store := ⟨#[{ prototype := none, kind := .error }]⟩ }.compareValues "value"
      (.object 0) (.number 7)).run [] = .error .outOfFuel :=
  (endless_compareValues rfl rfl rfl rfl).2

end Stasis
