import Mathlib
import Stasis.Script.Parser
import Stasis.Proofs.Script.Reads

/-!
# How operators group operands

Operands that are joined by operators can be grouped in many ways. Only one of them respects the
precedence of the operators, and it is the one that is read.

* `InfixTree`: operands grouped by operators, whatever the operands are.
* `InfixTree.IsGrouped`: the operators below an operator bind more tightly. Operators of the same
  precedence group to the left, but `**` groups to the right.
* `InfixTree.IsGrouped.eq_of_inOrder_eq`: operands and operators can be grouped in one way only.
* `Spells`: the operands and operators that are next in a stream.
* `Rules.binaryRule_groups`: reading operands joined by operators groups them like this.
-/

namespace Stasis.Script

open Parse

variable {s t s' : Stream} {e : Expr} {r : Rules} {op inner next : InfixOp} {least : ℕ}

/-! ## Precedence -/

/-- How tightly an operator binds its operands. -/
def InfixOp.precedence : InfixOp → ℕ
  | .logical .nullish | .logical .or => 1
  | .logical .and => 2
  | .binary .bitOr => 3
  | .binary .bitXor => 4
  | .binary .bitAnd => 5
  | .binary .eq | .binary .notEq | .binary .strictEq | .binary .strictNotEq => 6
  | .binary .lt | .binary .gt | .binary .ltEq | .binary .gtEq
  | .binary .instanceOf | .binary .in => 7
  | .binary .add | .binary .sub => 9
  | .binary .mul | .binary .div | .binary .rem => 10
  | .binary .exp => 11

/-- An operator is read with its precedence. -/
theorem eq_precedence_of_binaryOperator {u : Token} {n : ℕ} (h : binaryOperator? u = some (n, op)) :
    n = op.precedence := by
  unfold binaryOperator? at h
  split at h
  case h_21 =>
    split_ifs at h <;> cases h <;> rfl
  all_goals cases h <;> rfl

/-- No other operator binds as tightly as `**`. -/
theorem InfixOp.eq_exp_of_le (h : (InfixOp.binary .exp).precedence ≤ op.precedence) :
    op = .binary .exp := by
  revert h
  rcases op with op | op <;> cases op <;> decide

/-- The operator may stand at the root of the left operand of another one. -/
def InfixOp.IsLeftOf (inner op : InfixOp) : Prop :=
  if op = .binary .exp then op.precedence < inner.precedence else op.precedence ≤ inner.precedence

/-- The operator may stand at the root of the right operand of another one. -/
def InfixOp.IsRightOf (inner op : InfixOp) : Prop :=
  if op = .binary .exp then op.precedence ≤ inner.precedence else op.precedence < inner.precedence

theorem InfixOp.isRightOf_iff :
    inner.IsRightOf op ↔ Rules.rightPrecedence op.precedence op ≤ inner.precedence := by
  unfold IsRightOf Rules.rightPrecedence
  split <;> rfl

/-- Of two operators next to each other, exactly one may stand below the other. -/
theorem InfixOp.isLeftOf_iff : op.IsLeftOf next ↔ ¬ next.IsRightOf op := by
  unfold IsLeftOf IsRightOf
  by_cases hop : op = .binary .exp
  · by_cases hnext : next = .binary .exp
    · rw [hop, hnext]
      decide
    · have hle : next.precedence < (InfixOp.binary .exp).precedence :=
        not_le.mp (mt eq_exp_of_le hnext)
      rw [if_neg hnext, if_pos hop, hop]
      omega
  · by_cases hnext : next = .binary .exp
    · have hle : op.precedence < (InfixOp.binary .exp).precedence := not_le.mp (mt eq_exp_of_le hop)
      rw [if_pos hnext, if_neg hop, hnext]
      omega
    · rw [if_neg hnext, if_neg hop]
      omega

theorem InfixOp.IsLeftOf.le (h : inner.IsLeftOf op) : op.precedence ≤ inner.precedence := by
  unfold IsLeftOf at h
  split_ifs at h
  · exact h.le
  · exact h

theorem InfixOp.IsRightOf.le (h : inner.IsRightOf op) : op.precedence ≤ inner.precedence := by
  unfold IsRightOf at h
  split_ifs at h
  · exact h
  · exact h.le

/-- An operator that binds more tightly may stand to the left as well. -/
theorem InfixOp.IsLeftOf.of_le (h : inner.IsLeftOf op) (hle : inner.precedence ≤ next.precedence) :
    next.IsLeftOf op := by
  unfold IsLeftOf at h ⊢
  split_ifs at h ⊢ <;> omega

/-- And to the right. -/
theorem InfixOp.IsRightOf.of_le (h : inner.IsRightOf op) (hle : inner.precedence ≤ next.precedence) :
    next.IsRightOf op :=
  isRightOf_iff.mpr ((isRightOf_iff.mp h).trans hle)

/-! ## Trees of operators -/

/-- Operands that are grouped by operators. -/
inductive InfixTree where
  | operand (e : Expr)
  | node (op : InfixOp) (left right : InfixTree)

/-- One of the operands or operators in a row of them. -/
inductive InfixItem where
  | operand (e : Expr)
  | operator (op : InfixOp)

namespace InfixTree

variable {tree other left right : InfixTree}

/-- The expression of a tree. -/
def expr : InfixTree → Expr
  | operand e => e
  | node op left right => op.apply left.expr right.expr

/-- The operands and operators of a tree, from left to right. -/
def inOrder : InfixTree → List InfixItem
  | operand e => [.operand e]
  | node op left right => left.inOrder ++ .operator op :: right.inOrder

/-- The operator that is applied last. -/
def root? : InfixTree → Option InfixOp
  | operand _ => none
  | node op _ _ => some op

/-- Every operator may stand where it does, below the next one. -/
inductive IsGrouped : InfixTree → Prop
  | operand (e : Expr) : IsGrouped (operand e)
  | node {op : InfixOp} {left right : InfixTree}
    (hleft : ∀ inner, left.root? = some inner → inner.IsLeftOf op)
    (hright : ∀ inner, right.root? = some inner → inner.IsRightOf op)
    (left_isGrouped : left.IsGrouped) (right_isGrouped : right.IsGrouped) :
    IsGrouped (node op left right)

/-- No operator of a tree binds less tightly than the one at the root. -/
theorem IsGrouped.exists_root (h : tree.IsGrouped) (hop : .operator op ∈ tree.inOrder) :
    ∃ root, tree.root? = some root ∧ root.precedence ≤ op.precedence := by
  induction h with
  | operand e => cases List.mem_singleton.mp hop
  | @node root left right hleft hright _ _ ihleft ihright =>
    refine ⟨root, rfl, ?_⟩
    rcases List.mem_append.mp hop with hop | hop
    · obtain ⟨inner, hinner, hle⟩ := ihleft hop
      exact (hleft inner hinner).le.trans hle
    · rcases List.mem_cons.mp hop with hop | hop
      · cases hop
        exact le_rfl
      · obtain ⟨inner, hinner, hle⟩ := ihright hop
        exact (hright inner hinner).le.trans hle

/-- An operator that stands below another one, on its left, does not have it below itself, on its
right. -/
theorem not_crossing (hleft : left.IsGrouped) (hright : right.IsGrouped)
    (hinner : ∀ inner, left.root? = some inner → inner.IsLeftOf next)
    (hnext : ∀ inner, right.root? = some inner → inner.IsRightOf op)
    (hop : .operator op ∈ left.inOrder) : .operator next ∉ right.inOrder := by
  intro hmem
  obtain ⟨root, hroot, hle⟩ := hleft.exists_root hop
  obtain ⟨root', hroot', hle'⟩ := hright.exists_root hmem
  have hbelow := (hinner root hroot).of_le hle
  have habove := (hnext root' hroot').of_le hle'
  exact InfixOp.isLeftOf_iff.mp hbelow habove

/-- Of two ways to take a row apart at an operator, the left part of one is not longer than that of the
other: each of the two operators would stand below the other. -/
theorem eq_nil_of_append {middle : List InfixItem} (hleft : left.IsGrouped) (hright : right.IsGrouped)
    (hinner : ∀ inner, left.root? = some inner → inner.IsLeftOf next)
    (hnext : ∀ inner, right.root? = some inner → inner.IsRightOf op)
    (hl : left.inOrder = tree.inOrder ++ middle)
    (hr : .operator op :: right.inOrder = middle ++ .operator next :: other.inOrder) :
    middle = [] := by
  cases middle with
  | nil => rfl
  | cons item middle =>
    obtain ⟨rfl, hmore⟩ := List.cons.inj hr
    have hop : .operator op ∈ left.inOrder := by
      rw [hl]
      exact List.mem_append_right _ List.mem_cons_self
    have hop' : .operator next ∈ right.inOrder := by
      rw [hmore]
      exact List.mem_append_right _ List.mem_cons_self
    exact absurd hop' (not_crossing hleft hright hinner hnext hop)

/-- A tree with an operator has more than an operand. -/
theorem inOrder_node_ne (op : InfixOp) (left right : InfixTree) (e : Expr) :
    (node op left right).inOrder ≠ [.operand e] := by
  intro heq
  have hmem : .operator op ∈ (node op left right).inOrder :=
    List.mem_append_right _ List.mem_cons_self
  rw [heq] at hmem
  cases List.mem_singleton.mp hmem

/-- **Operands and operators can be grouped in one way only.** -/
theorem IsGrouped.eq_of_inOrder_eq (h : tree.IsGrouped) (hother : other.IsGrouped)
    (heq : tree.inOrder = other.inOrder) : tree = other := by
  induction h generalizing other with
  | operand e =>
    cases hother with
    | operand e' =>
      cases heq
      rfl
    | node => exact absurd heq.symm (inOrder_node_ne _ _ _ e)
  | @node op left right hleft hright hgrouped hgrouped' ihleft ihright =>
    cases hother with
    | operand e => exact absurd heq (inOrder_node_ne _ _ _ e)
    | @node next left' right' hleft' hright' hother hother' =>
      have hparts : left.inOrder = left'.inOrder ∧
          InfixItem.operator op :: right.inOrder = .operator next :: right'.inOrder := by
        rcases List.append_eq_append_iff.mp heq with ⟨middle, hl, hr⟩ | ⟨middle, hl, hr⟩
        · obtain rfl := eq_nil_of_append hother hgrouped' hleft' hright hl hr
          exact ⟨by rw [hl, List.append_nil], hr⟩
        · obtain rfl := eq_nil_of_append hgrouped hother' hleft hright' hl hr
          exact ⟨by rw [hl, List.append_nil], hr.symm⟩
      obtain ⟨hl, hr⟩ := hparts
      obtain ⟨hop, hmore⟩ := List.cons.inj hr
      cases hop
      rw [ihleft hother hl, ihright hother' hmore]

end InfixTree

/-! ## Reading -/

/-- An operand is next: an expression that stands before or behind an operator. -/
def ReadsOperand (s : Stream) (e : Expr) (s' : Stream) : Prop :=
  ∃ depth, Reads (Rules.upTo depth).unaryRule s e s'

/-- Operands are next, with an operator between any two of them. -/
inductive Spells : Stream → List InfixItem → Stream → Prop
  | operand {s s' : Stream} {e : Expr} (h : ReadsOperand s e s') : Spells s [.operand e] s'
  | operator {s t s' : Stream} {e : Expr} {op : InfixOp} {items : List InfixItem}
    (h : ReadsOperand s e t) (hop : binaryOperator? t.peek = some (op.precedence, op))
    (hmore : Spells t.tail items s') : Spells s (.operand e :: .operator op :: items) s'

/-- An operator joins two rows of operands. -/
theorem Spells.join {items more : List InfixItem} (h : Spells s items t)
    (hop : binaryOperator? t.peek = some (op.precedence, op)) (hmore : Spells t.tail more s') :
    Spells s (items ++ .operator op :: more) s' := by
  induction h with
  | operand h => exact .operator h hop hmore
  | operator h hop' _ ih => exact .operator h hop' (ih hop hmore)

/-- Operands have been read and grouped. Only operators that bind tightly enough have been taken: `least`
or more. -/
structure InfixTree.IsRead (s : Stream) (least : ℕ) (e : Expr) (s' : Stream) (tree : InfixTree) :
    Prop where
  expr : tree.expr = e
  spells : Spells s tree.inOrder s'
  isGrouped : tree.IsGrouped
  root : ∀ op, tree.root? = some op → least ≤ op.precedence

/-- A reader groups operands by operators that bind tightly enough, and leaves no such operator. -/
def Groups (reader : Parse Expr) (least : ℕ) : Prop :=
  ∀ ⦃s e s'⦄, Reads reader s e s' → ∃ tree : InfixTree, tree.IsRead s least e s' ∧
    ∀ n next, binaryOperator? s'.peek = some (n, next) → n < least

/-- One more operator with its right operand, behind a tree that may stand to its left. -/
theorem InfixTree.IsRead.node {left right : InfixTree} {e₁ e₂ : Expr}
    (h : left.IsRead s least e₁ t) (hop : binaryOperator? t.peek = some (op.precedence, op))
    (hleft : ∀ inner, left.root? = some inner → inner.IsLeftOf op) (hleast : least ≤ op.precedence)
    (hright : right.IsRead t.tail (Rules.rightPrecedence op.precedence op) e₂ s') :
    (InfixTree.node op left right).IsRead s least (op.apply e₁ e₂) s' where
  expr := by rw [InfixTree.expr, h.expr, hright.expr]
  spells := h.spells.join hop hright.spells
  isGrouped := .node hleft (fun inner hinner => InfixOp.isRightOf_iff.mpr (hright.root inner hinner))
    h.isGrouped hright.isGrouped
  root := by
    intro root hroot
    cases hroot
    exact hleast

namespace Rules

/-- **Operands joined by operators are grouped**, if what stands to the right of an operator is. -/
theorem groups_binaryRule (hr : ∀ least, Groups (r.binary least) least)
    (hoperand : ∀ ⦃s e s'⦄, Reads r.unaryRule s e s' → ReadsOperand s e s') (least : ℕ) :
    Groups (r.binaryRule least) least := by
  intro s e s' h
  simp only [binaryRule, reads_bind_iff] at h
  obtain ⟨first, t, hfirst, h⟩ := h
  -- an operator that is next may have everything that has been read on its left
  refine reads_repeat
    (I := fun e t => ∃ tree : InfixTree, tree.IsRead s least e t ∧
      ∀ n next, binaryOperator? t.peek = some (n, next) →
        ∀ root, tree.root? = some root → root.IsLeftOf next)
    (Q := fun e t => ∃ tree : InfixTree, tree.IsRead s least e t ∧
      ∀ n next, binaryOperator? t.peek = some (n, next) → n < least) ?_ ?_ h
  · rintro left t y t' ⟨tree, htree, hadmits⟩ h
    simp only [reads_bind_iff, reads_peek_iff] at h
    obtain ⟨_, _, ⟨rfl, rfl⟩, h⟩ := h
    split at h
    · next hnone =>
      obtain ⟨rfl, rfl⟩ := reads_pure_iff.mp h
      refine ⟨tree, htree, fun n next hnext => ?_⟩
      rw [hnone] at hnext
      cases hnext
    · next precedence op hop =>
      simp at h
      rcases h with ⟨hless, rfl, rfl⟩ | ⟨hleast, right, h, rfl⟩
      · refine ⟨tree, htree, fun n next hnext => ?_⟩
        rw [hop] at hnext
        cases hnext
        exact hless
      · obtain rfl := eq_precedence_of_binaryOperator hop
        obtain ⟨more, hmore, hend⟩ := hr _ h
        refine ⟨.node op tree more, htree.node hop (hadmits _ _ hop) hleast hmore, ?_⟩
        intro n next hnext root hroot
        cases hroot
        have hless := hend n next hnext
        rw [eq_precedence_of_binaryOperator hnext] at hless
        rw [InfixOp.isLeftOf_iff, InfixOp.isRightOf_iff, not_le]
        exact hless
  · refine ⟨.operand first, ⟨rfl, .operand (hoperand hfirst), .operand first, ?_⟩, ?_⟩
    · intro op hop
      cases hop
    · intro n next _ root hroot
      cases hroot

/-- At every depth. -/
theorem groups_upTo (depth least : ℕ) : Groups ((Rules.upTo depth).binary least) least := by
  induction depth generalizing least with
  | zero => exact fun _ _ _ h => absurd h not_reads_unexpected
  | succ depth ih => exact groups_binaryRule ih (fun _ _ _ h => ⟨depth, h⟩) least

/-- **Operands joined by operators are grouped by precedence, in the only way there is.** The operands and
operators that are next in the stream are those of the tree, from left to right, and no operator is
left. -/
theorem binaryRule_groups {depth : ℕ} (h : Reads ((Rules.upTo depth).binaryRule 0) s e s') :
    ∃ items, Spells s items s' ∧ binaryOperator? s'.peek = none ∧
      ∃ tree : InfixTree, tree.expr = e ∧ tree.inOrder = items ∧ tree.IsGrouped ∧
        ∀ other : InfixTree, other.inOrder = items → other.IsGrouped → other = tree := by
  obtain ⟨tree, htree, hend⟩ := groups_upTo (depth + 1) 0 h
  refine ⟨tree.inOrder, htree.spells, ?_, tree, htree.expr, rfl, htree.isGrouped, ?_⟩
  · rw [Option.eq_none_iff_forall_ne_some]
    rintro ⟨n, next⟩ hnext
    exact absurd (hend n next hnext) (Nat.not_lt_zero _)
  · intro other horder hgrouped
    exact hgrouped.eq_of_inOrder_eq htree.isGrouped horder

/-- `a ** b ** c - d` is `(a ** (b ** c)) - d`. -/
theorem binaryRule_groups_powers :
    ∃ ts stop e s', lex "a**b**c-d" = .ok (ts, stop) ∧
      Reads ((Rules.upTo 4).binaryRule 0) ⟨ts, stop, .none, 0⟩ e s' ∧ e =
        .binary .sub (.binary .exp (.ident "a" 0 ⟨0, 1, 1, 1⟩) (.binary .exp (.ident "b" 1 ⟨3, 4, 1, 4⟩)
          (.ident "c" 2 ⟨6, 7, 1, 7⟩) ⟨3, 7, 1, 4⟩) ⟨0, 7, 1, 1⟩) (.ident "d" 3 ⟨8, 9, 1, 9⟩)
          ⟨0, 9, 1, 1⟩ ∧
      ∃ items, Spells ⟨ts, stop, .none, 0⟩ items s' ∧ binaryOperator? s'.peek = none ∧
        ∃ tree : InfixTree, tree.expr = e ∧ tree.inOrder = items ∧ tree.IsGrouped ∧
          ∀ other : InfixTree, other.inOrder = items → other.IsGrouped → other = tree := by
  let stop : Token := ⟨.eof, ⟨9, 9, 1, 10⟩, false⟩
  let ts : List Token := [⟨.ident "a", ⟨0, 1, 1, 1⟩, false⟩, ⟨.punct .pow, ⟨1, 3, 1, 2⟩, false⟩,
    ⟨.ident "b", ⟨3, 4, 1, 4⟩, false⟩, ⟨.punct .pow, ⟨4, 6, 1, 5⟩, false⟩,
    ⟨.ident "c", ⟨6, 7, 1, 7⟩, false⟩, ⟨.punct .minus, ⟨7, 8, 1, 8⟩, false⟩,
    ⟨.ident "d", ⟨8, 9, 1, 9⟩, false⟩]
  have hlex : lex "a**b**c-d" = .ok (ts, stop) := by cbv
  have h : Reads ((Rules.upTo 4).binaryRule 0) ⟨ts, stop, .none, 0⟩
      (.binary .sub (.binary .exp (.ident "a" 0 ⟨0, 1, 1, 1⟩) (.binary .exp (.ident "b" 1 ⟨3, 4, 1, 4⟩)
        (.ident "c" 2 ⟨6, 7, 1, 7⟩) ⟨3, 7, 1, 4⟩) ⟨0, 7, 1, 1⟩) (.ident "d" 3 ⟨8, 9, 1, 9⟩)
        ⟨0, 9, 1, 1⟩) ⟨[], stop, ⟨8, 9, 1, 9⟩, 4⟩ := by
    cbv
  exact ⟨ts, stop, _, _, hlex, h, rfl, binaryRule_groups h⟩

end Rules

end Stasis.Script
