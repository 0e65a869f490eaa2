import Mathlib
import Stasis.Script.Scope

/-!
# The tree of scopes

Every scope but that of the script is opened inside of one that has been opened before. So scopes are a tree
with smaller numbers towards its root, and a walk outwards ends there. What a name means in a scope does not
change while more scopes are opened.

* `Analysis.Parent`: a scope stands directly around another one.
* `Analysis.IsTree`: the scopes are a tree; `IsTree.mem_ancestors_iff`: a walk outwards meets all ancestors.
* `Analysis.Grows`: an analysis in which more scopes have been opened.
* `Grows.resolve_eq`: what is declared by then is what was declared before.
* `resolve_of_outside`: a name that is declared outside of a scope means the same in all scopes within.
-/

namespace Stasis.Script.Analysis

variable {a b c : Analysis} {scope outer parent declared : ScopeId} {name : String}

/-! ## Ancestors -/

/-- A scope stands directly around another one. -/
def Parent (a : Analysis) (parent scope : ScopeId) : Prop :=
  a.scopes[scope]?.bind (·.parent) = some parent

/-- A walk outwards is at its end or goes on to the parent. -/
theorem ancestors_cases (a : Analysis) (scope : ScopeId) :
    a.ancestors scope = [scope] ∨
      ∃ parent, a.Parent parent scope ∧ parent < scope ∧
        a.ancestors scope = scope :: a.ancestors parent := by
  rw [ancestors]
  split
  · exact .inl rfl
  · next parent hparent =>
    split
    · next hlt => exact .inr ⟨parent, hparent, hlt, rfl⟩
    · exact .inl rfl

theorem ancestors_of_parent (h : a.Parent parent scope) (hlt : parent < scope) :
    a.ancestors scope = scope :: a.ancestors parent := by
  rw [ancestors, h]
  exact if_pos hlt

theorem self_mem_ancestors (a : Analysis) (scope : ScopeId) : scope ∈ a.ancestors scope := by
  rcases a.ancestors_cases scope with h | ⟨parent, -, -, h⟩
  · exact h ▸ List.mem_cons_self
  · exact h ▸ List.mem_cons_self

theorem isWithin_iff : a.isWithin scope outer = true ↔ outer ∈ a.ancestors scope :=
  List.contains_iff_mem

theorem le_of_mem_ancestors (h : outer ∈ a.ancestors scope) : outer ≤ scope := by
  induction scope using Nat.strong_induction_on with
  | _ scope ih =>
    rcases a.ancestors_cases scope with hscope | ⟨parent, -, hlt, hscope⟩
    · exact (List.mem_singleton.mp (hscope ▸ h)).le
    · rcases List.mem_cons.mp (hscope ▸ h) with rfl | h
      · exact le_rfl
      · exact (ih parent hlt h).trans hlt.le

/-- **The ancestors of a scope are the last of those of a scope within it.** -/
theorem ancestors_split (h : outer ∈ a.ancestors scope) : ∃ front,
    a.ancestors scope = front ++ a.ancestors outer ∧ ∀ x ∈ front, outer ∈ a.ancestors x := by
  induction scope using Nat.strong_induction_on with
  | _ scope ih =>
    rcases a.ancestors_cases scope with hscope | ⟨parent, hparent, hlt, hscope⟩
    · obtain rfl := List.mem_singleton.mp (hscope ▸ h)
      exact ⟨[], rfl, nofun⟩
    · rcases List.mem_cons.mp (hscope ▸ h) with rfl | houter
      · exact ⟨[], rfl, nofun⟩
      · obtain ⟨front, hfront, hwithin⟩ := ih parent hlt houter
        exact ⟨scope :: front, by rw [hscope, hfront, List.cons_append],
          List.forall_mem_cons.mpr ⟨h, hwithin⟩⟩

theorem mem_ancestors_trans (h : outer ∈ a.ancestors scope) (hparent : parent ∈ a.ancestors outer) :
    parent ∈ a.ancestors scope := by
  obtain ⟨front, hfront, -⟩ := ancestors_split h
  exact hfront ▸ List.mem_append_right front hparent

/-- What a walk outwards meets are ancestors. -/
theorem reflTransGen_of_mem_ancestors (h : outer ∈ a.ancestors scope) :
    Relation.ReflTransGen a.Parent outer scope := by
  induction scope using Nat.strong_induction_on with
  | _ scope ih =>
    rcases a.ancestors_cases scope with hscope | ⟨parent, hparent, hlt, hscope⟩
    · obtain rfl := List.mem_singleton.mp (hscope ▸ h)
      exact .refl
    · rcases List.mem_cons.mp (hscope ▸ h) with rfl | h
      · exact .refl
      · exact (ih parent hlt h).tail hparent

/-- **A name that is declared outside of a scope** means the same in this scope as in every scope within it,
and is declared in a proper ancestor of this scope. -/
theorem resolve_of_outside (hin : outer ∈ a.ancestors scope) (h : a.resolve name scope = some declared)
    (hout : outer ∉ a.ancestors declared) :
    a.resolve name outer = some declared ∧ Relation.TransGen a.Parent declared outer := by
  obtain ⟨front, hsplit, hfront⟩ := ancestors_split hin
  have houter : a.resolve name outer = some declared := by
    rw [resolve, hsplit, List.find?_append] at h
    cases hfind : front.find? (a.declares name) with
    | none => rwa [hfind, Option.none_or] at h
    | some found =>
      -- the scopes in front lie within the scope
      rw [hfind, Option.some_or] at h
      obtain rfl := Option.some_inj.mp h
      exact absurd (hfront found (List.mem_of_find?_eq_some hfind)) hout
  refine ⟨houter, ?_⟩
  have hmem : declared ∈ a.ancestors outer := List.mem_of_find?_eq_some houter
  rcases Relation.reflTransGen_iff_eq_or_transGen.mp (reflTransGen_of_mem_ancestors hmem) with rfl | h
  · exact absurd (a.self_mem_ancestors outer) hout
  · exact h

/-! ## Trees -/

/-- **The scopes are a tree**: one scope is the root, and every other one stands inside of a scope with a
smaller number. -/
structure IsTree (a : Analysis) : Prop where
  root : ∃ s, a.scopes[0]? = some s ∧ s.parent = none
  parent : ∀ scope s, a.scopes[scope]? = some s → scope ≠ 0 → ∃ parent < scope, s.parent = some parent

namespace IsTree

theorem parent_lt (h : a.IsTree) (hparent : a.Parent parent scope) : parent < scope := by
  obtain ⟨s, hs, hparent⟩ := Option.bind_eq_some_iff.mp hparent
  rcases eq_or_ne scope 0 with rfl | hne
  · obtain ⟨root, hroot, hnone⟩ := h.root
    obtain rfl := Option.some_inj.mp (hroot.symm.trans hs)
    exact absurd (hnone.symm.trans hparent) (Option.some_ne_none _).symm
  · obtain ⟨smaller, hlt, hs⟩ := h.parent scope s hs hne
    rwa [← Option.some_inj.mp (hs.symm.trans hparent)]

/-- Every walk outwards ends. -/
theorem wellFounded (h : a.IsTree) : WellFounded a.Parent :=
  Subrelation.wf h.parent_lt wellFounded_lt

/-- **A walk outwards meets all ancestors.** -/
theorem mem_ancestors_iff (h : a.IsTree) :
    outer ∈ a.ancestors scope ↔ Relation.ReflTransGen a.Parent outer scope := by
  refine ⟨reflTransGen_of_mem_ancestors, fun hancestor => ?_⟩
  induction hancestor with
  | refl => exact a.self_mem_ancestors outer
  | tail _ hparent ih =>
    rw [ancestors_of_parent hparent (h.parent_lt hparent)]
    exact List.mem_cons_of_mem _ ih

end IsTree

/-! ## More scopes -/

/-- **More scopes have been opened**, each of them inside of an earlier one. -/
structure Grows (a b : Analysis) : Prop where
  kept : ∀ (scope : ScopeId) s, a.scopes[scope]? = some s → b.scopes[scope]? = some s
  added : ∀ (scope : ScopeId) s, a.scopes.size ≤ scope → b.scopes[scope]? = some s →
    ∃ parent < scope, s.parent = some parent

namespace Grows

theorem of_eq (h : b.scopes = a.scopes) : a.Grows b where
  kept := fun _ _ hs => h ▸ hs
  added := by
    intro scope s hle hs
    rw [h, Array.getElem?_eq_none hle] at hs
    cases hs

theorem refl (a : Analysis) : a.Grows a := of_eq rfl

theorem size_le (h : a.Grows b) : a.scopes.size ≤ b.scopes.size := by
  by_contra hlt
  have hs := h.kept b.scopes.size _ (Array.getElem?_eq_getElem (not_le.mp hlt))
  rw [Array.getElem?_eq_none le_rfl] at hs
  cases hs

theorem trans (h : a.Grows b) (hmore : b.Grows c) : a.Grows c where
  kept := fun scope s hs => hmore.kept scope s (h.kept scope s hs)
  added := by
    intro scope s hle hs
    rcases lt_or_ge scope b.scopes.size with hlt | hge
    · have hb := Array.getElem?_eq_getElem hlt
      obtain rfl := Option.some_inj.mp ((hmore.kept scope _ hb).symm.trans hs)
      exact h.added scope _ hle hb
    · exact hmore.added scope s hge hs

/-- One more scope. -/
theorem push {s : Scope} (hparent : s.parent = some parent) (hlt : parent < a.scopes.size)
    (hb : b.scopes = a.scopes.push s) : a.Grows b where
  kept := by
    intro scope s' hs
    have hscope := (Array.getElem?_eq_some_iff.mp hs).1
    rw [hb, Array.getElem?_push_lt hscope, ← Array.getElem?_eq_getElem hscope, hs]
  added := by
    intro scope s' hle hs
    rw [hb] at hs
    have hscope : scope = a.scopes.size := by
      have hlt := (Array.getElem?_eq_some_iff.mp hs).1
      rw [Array.size_push] at hlt
      exact (Nat.le_of_lt_succ hlt).antisymm hle
    rw [hscope, Array.getElem?_push_size] at hs
    obtain rfl := Option.some_inj.mp hs
    exact ⟨parent, hscope ▸ hlt, hparent⟩

theorem getElem?_eq (h : a.Grows b) (hscope : scope < a.scopes.size) :
    b.scopes[scope]? = a.scopes[scope]? := by
  rw [Array.getElem?_eq_getElem hscope]
  exact h.kept scope _ (Array.getElem?_eq_getElem hscope)

theorem ancestors_eq (h : a.Grows b) (hscope : scope < a.scopes.size) :
    b.ancestors scope = a.ancestors scope := by
  induction scope using Nat.strong_induction_on with
  | _ scope ih =>
    rw [ancestors, ancestors, h.getElem?_eq hscope]
    split
    · rfl
    · next parent _ =>
      split
      · next hlt => rw [ih parent hlt (hlt.trans hscope)]
      · rfl

/-- **What a name means in a scope does not change** when more scopes are opened. -/
theorem resolve_eq (h : a.Grows b) (hscope : scope < a.scopes.size) :
    b.resolve name scope = a.resolve name scope := by
  rw [resolve, resolve, h.ancestors_eq hscope]
  refine List.find?_congr fun outer houter => ?_
  rw [declares, declares, h.getElem?_eq ((le_of_mem_ancestors houter).trans_lt hscope)]

/-- A tree stays one. -/
theorem isTree (h : a.Grows b) (ha : a.IsTree) : b.IsTree where
  root := by
    obtain ⟨s, hs, hnone⟩ := ha.root
    exact ⟨s, h.kept 0 s hs, hnone⟩
  parent := by
    intro scope s hs hne
    rcases lt_or_ge scope a.scopes.size with hlt | hge
    · exact ha.parent scope s (h.getElem?_eq hlt ▸ hs) hne
    · exact h.added scope s hge hs

end Grows

end Stasis.Script.Analysis
