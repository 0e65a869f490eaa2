import Mathlib
import Stasis.Proofs.Adds.Realm

/-!
# The expressions of paths only add

An access path reads members, spreads what it reads into new arrays, and calls what it finds under a
few names. Induction over the expression is left to the machine: what is evaluated inside an access
path is an access path itself.

* `Base.gives_evalCallee`: what a path calls only reads.
* `Base.adds_evalExpr`: the expressions of access paths.
-/

namespace Stasis

open Script (Access Element Expr)

theorem isAccessPath_of_mem {xs : List Element} (h : areAccessPaths xs = true) :
    ∀ x ∈ xs, isAccessPath x.value = true := by
  induction xs with
  | nil => exact fun _ hx => absurd hx List.not_mem_nil
  | cons x xs ih =>
    obtain ⟨spread, e⟩ := x
    simp only [areAccessPaths, Bool.and_eq_true] at h
    exact List.forall_mem_cons.mpr ⟨h.1.2, ih h.2⟩

namespace Base

variable {b : Base} [Machine] [TameMachine b]

theorem adds_accessKey {a : Access} (h : isAccessKey a = true) (env : EnvId) :
    b.Adds (accessKey a env) := by
  cases a with
  | named name _ => exact Adds.pure _
  | computed e => exact (adds_eval h env).bind fun v => adds_toKey v

theorem adds_elementValues {x : Element} (h : isAccessPath x.value = true) (env : EnvId) :
    b.Adds (elementValues x env) := by
  refine (adds_eval h env).bind fun v => ?_
  split
  · exact adds_iterated v
  · exact Adds.pure _

theorem adds_argumentValues {xs : List Element} (h : areAccessPaths xs = true) (env : EnvId) :
    b.Adds (argumentValues xs env) :=
  (adds_mapM_mem fun x hx => adds_elementValues (isAccessPath_of_mem h x hx) env).bind fun _ =>
    Adds.pure _

omit [Machine] [TameMachine b] in
theorem adds_addElements {id : ObjectId} (hid : b.realm.store.size ≤ id) (values : List Value) :
    ∀ index, b.Adds (addElements id index values) := by
  induction values with
  | nil => exact fun _ => Adds.pure _
  | cons v values ih =>
    exact fun index => (adds_addProperty hid (isAsked_ofIndex index) v).bind fun _ => ih _

theorem adds_fillArray {id : ObjectId} (hid : b.realm.store.size ≤ id) (env : EnvId)
    {elements : List (Option Element)}
    (h : ∀ x, some x ∈ elements → isAccessPath x.value = true) :
    ∀ index, b.Adds (fillArray id env index elements) := by
  induction elements with
  | nil => exact fun _ => Adds.pure _
  | cons element rest ih =>
    intro index
    have hrest := ih fun x hx => h x (List.mem_cons_of_mem _ hx)
    cases element with
    | none => exact hrest _
    | some x =>
      refine (adds_elementValues (h x List.mem_cons_self) env).bind fun values => ?_
      exact (adds_addElements hid values index).bind fun _ => hrest _

/-- An array of what paths lead to is a new one. -/
theorem adds_evalArray {elements : List (Option Element)}
    (h : ∀ x, some x ∈ elements → isAccessPath x.value = true) (env : EnvId) :
    b.Adds (evalArray elements env) := by
  refine (gives_newArray []).bind_adds fun id hid => ?_
  refine (adds_fillArray hid env h 0).bind fun length => ?_
  exact (adds_setLength hid _).bind fun _ => Adds.pure _

/-- What a path calls it has found under one of a few names, so it only reads. -/
theorem gives_evalCallee {callee : Expr} (hcallee : isReflectiveCallee callee = true)
    (hpath : isAccessPath callee = true) (env : EnvId) :
    b.Gives (evalCallee callee env) fun out => b.IsHarmless out.1 := by
  unfold isReflectiveCallee at hcallee
  split at hcallee
  · next o name _ _ =>
    simp only [isAccessPath, Bool.and_eq_true] at hpath
    have hasked : (Key.text name).isAsked = true := by simp [Key.isAsked, hcallee]
    refine (adds_eval hpath.1 env).bind_gives fun base => ?_
    refine (gives_getProperty base (.text name)).bind fun f hf => Gives.pure (hf hasked)
  · cases hcallee

theorem adds_evalCall {callee : Expr} {arguments : List Element}
    (hcallee : isReflectiveCallee callee = true) (hpath : isAccessPath callee = true)
    (harguments : areAccessPaths arguments = true) (env : EnvId) :
    b.Adds (evalCall callee arguments env) := by
  refine (gives_evalCallee hcallee hpath env).bind_adds fun out hf => ?_
  refine (adds_argumentValues harguments env).bind fun args => adds_get.bind fun r => ?_
  have hcall := adds_call hf out.2 args
  dsimp only
  split
  · exact (adds_throwType _).bind fun _ => hcall
  · exact hcall

/-- **Evaluating an access path only adds.** -/
theorem adds_evalExpr {e : Expr} (h : isAccessPath e = true) (name : Option String) (env : EnvId) :
    b.Adds (evalExpr e name env) := by
  unfold isAccessPath at h
  split at h
  · exact adds_readVariable _ _
  · exact Adds.pure _
  · exact Adds.pure _
  · simp only [Bool.and_eq_true] at h
    exact (adds_eval h.1 env).bind fun base => (adds_accessKey h.2 env).bind fun key =>
      adds_getProperty base key
  · simp only [Bool.and_eq_true] at h
    exact adds_evalCall h.1.1 h.1.2 h.2 env
  · next x _ =>
    obtain ⟨spread, e⟩ := x
    simp only [isSpreadPath, Bool.and_eq_true] at h
    refine adds_evalArray (fun y hy => ?_) env
    obtain rfl : y = ⟨spread, e⟩ := by simpa using hy
    exact h.2
  · cases h

end Base

end Stasis
