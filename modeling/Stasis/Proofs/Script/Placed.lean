import Mathlib
import Stasis.Script.Tree
import Stasis.Proofs.Script.Lexed

/-!
# Trees whose spans nest

Every node of a tree has a place in the source, from the start of one token to the end of another. The
places of a node's children lie inside its own and do not overlap.

* `Node`, `Node.span`, `Node.children`: the nodes of a tree, whatever they are.
* `Span.IsIn`: a span from token to token, inside a range.
* `Node.Placed`: a node and everything below it are in place.
* `Sequence`: nodes that follow one another in a range.
* `Sequence.placed_around`: a node around nodes that follow one another.
-/

namespace Stasis.Script

variable {α : Type} {ts : List Token} {lo lo' mid hi hi' : ℕ}

/-! ## Nodes -/

/-- What has a place of its own in a tree. -/
inductive Node where
  | expr (value : Expr)
  | statement (value : Statement)
  | function (definition : FunctionDef)
  | «class» (definition : ClassDef)
  | member (value : ClassMember)
  | property (value : Property)
  | block (value : Block)
  | declaration (value : VariableDecl)
  | binding (value : Binding)
  | name (span : Span)

/-- The place of a node. -/
def Node.span : Node → Span
  | expr e => e.span
  | statement s => s.span
  | function f => f.span
  | «class» c => c.span
  | member m => m.span
  | property p => p.span
  | block b => b.span
  | declaration d => d.span
  | binding b => b.span
  | name span => span

/-- The nodes of a part that may be absent. -/
def optionNodes (node : α → Node) (part : Option α) : List Node :=
  part.toList.map node

theorem mem_optionNodes {node : α → Node} {part : Option α} {a : α} (h : part = some a) :
    node a ∈ optionNodes node part := by
  rw [h]
  exact List.mem_cons_self

/-- The node of the name of a member. -/
def Access.nodes : Access → List Node
  | named _ span => [.name span]
  | computed key => [.expr key]

/-- The node of the name of a property, if it is computed. -/
def PropertyName.nodes : PropertyName → List Node
  | computed key => [.expr key]
  | ident _ | text _ | number _ => []

/-- The node of an element. -/
def Element.node (e : Element) : Node := .expr e.value

/-- The nodes of a parameter. -/
def Param.nodes (p : Param) : List Node :=
  .binding p.binding :: optionNodes .expr p.default

/-- The node of the body of a function. -/
def FunctionBody.node : FunctionBody → Node
  | block b => .block b
  | expr value => .expr value

/-- The nodes of what a member is. -/
def MemberKind.nodes : MemberKind → List Node
  | method f | getter f | setter f => [.function f]
  | field value _ => optionNodes .expr value

/-- The nodes of one variable of a declaration. -/
def Declarator.nodes (d : Declarator) : List Node :=
  .binding d.binding :: optionNodes .expr d.value

/-- The nodes of a `catch` part. -/
def CatchClause.nodes (c : CatchClause) : List Node :=
  optionNodes .binding c.param ++ [.block c.body]

/-- The node of the start of a `for`. -/
def ForInit.node : ForInit → Node
  | declaration d => .declaration d
  | expr value => .expr value

/-- The nodes directly below an expression, in the order of the source. -/
def Expr.nodes : Expr → List Node
  | number .. | bigint .. | text .. | bool .. | null .. | ident .. | this .. | scopeLookup .. => []
  | array elements _ => elements.flatMap (optionNodes Element.node)
  | object properties _ => properties.map .property
  | function f _ | arrow f _ => [.function f]
  | «class» c _ => [.class c]
  | unary _ operand _ => [.expr operand]
  | update _ _ target _ => [.expr target]
  | binary _ left right _ | logical _ left right _ => [.expr left, .expr right]
  | assign _ target value _ => [.expr target, .expr value]
  | conditional test consequent alternate _ => [.expr test, .expr consequent, .expr alternate]
  | call callee arguments _ | new callee arguments _ => .expr callee :: arguments.map Element.node
  | member target access _ => .expr target :: access.nodes
  | superMember access _ => access.nodes
  | superCall arguments _ => arguments.map Element.node
  | sequence items _ => items.map .expr

/-- The nodes directly below a part of an object literal. -/
def Property.nodes : Property → List Node
  | keyValue key value _ _ => key.nodes ++ [.expr value]
  | method key f _ | getter key f _ | setter key f _ => key.nodes ++ [.function f]
  | spread value _ => [.expr value]

/-- The nodes of the parameters of a function. -/
def paramNodes (params : List Param) (rest : Option Binding) : List Node :=
  params.flatMap Param.nodes ++ optionNodes .binding rest

/-- The nodes directly below a function. -/
def FunctionDef.nodes (f : FunctionDef) : List Node :=
  optionNodes .binding f.name ++ (paramNodes f.params f.rest ++ [f.body.node])

/-- The nodes directly below a statement. -/
def Statement.nodes : Statement → List Node
  | declaration d => [.declaration d]
  | function f => [.function f]
  | «class» c => [.class c]
  | expr value _ => [.expr value]
  | ret value _ => optionNodes .expr value
  | cond test consequent alternate _ =>
    .expr test :: .statement consequent :: optionNodes .statement alternate
  | «while» test body _ => [.expr test, .statement body]
  | «for» start test update body _ _ =>
    optionNodes ForInit.node start ++ (optionNodes .expr test ++ (optionNodes .expr update ++
      [.statement body]))
  | block b => [.block b]
  | throw value _ => [.expr value]
  | «try» b handler finalizer _ =>
    .block b :: (handler.toList.flatMap CatchClause.nodes ++ optionNodes .block finalizer)
  | «break» _ | «continue» _ | empty _ => []

/-- The nodes directly below a class. Its constructor is apart from its other members, among which it
may stand anywhere. -/
def ClassDef.nodes (c : ClassDef) : List Node :=
  optionNodes .binding c.name ++ (optionNodes .expr c.superClass ++
    (optionNodes .function c.constructor ++ c.members.map .member))

/-- The nodes directly below a node. -/
def Node.children : Node → List Node
  | expr e => e.nodes
  | statement s => s.nodes
  | function f => f.nodes
  | «class» c => c.nodes
  | member m => m.key.nodes ++ m.kind.nodes
  | property p => p.nodes
  | block b => b.body.map .statement
  | declaration d => d.declarators.flatMap Declarator.nodes
  | binding _ | name _ => []

/-- Rows of children that follow one another in the source. In a class the constructor and the other members
are two of them, behind the name and what the class extends. -/
def Node.rows : Node → List (List Node)
  | «class» c =>
    let head := optionNodes .binding c.name ++ optionNodes .expr c.superClass
    [head ++ optionNodes .function c.constructor, head ++ c.members.map .member]
  | n => [n.children]

/-- The node is another one or stands somewhere below it. -/
def Node.IsIn (m n : Node) : Prop :=
  Relation.ReflTransGen (fun child parent => child ∈ parent.children) m n

/-- What stands in a node is the node itself or stands in one of its children. -/
theorem Node.isIn_iff {m n : Node} : m.IsIn n ↔ m = n ∨ ∃ child ∈ n.children, m.IsIn child := by
  rw [Node.IsIn, Relation.ReflTransGen.cases_tail_iff]
  simp only [Node.IsIn, and_comm, eq_comm]

/-! ## Places -/

/-- The span goes from the start of a token to the end of a token, inside a range. -/
structure Span.IsIn (ts : List Token) (lo hi : ℕ) (span : Span) : Prop where
  lower : lo ≤ span.start
  start_lt_stop : span.start < span.stop
  upper : span.stop ≤ hi
  first : ∃ t ∈ ts, t.span.start = span.start
  last : ∃ t ∈ ts, t.span.stop = span.stop

theorem Span.IsIn.mono {span : Span} (h : span.IsIn ts lo hi) (hlo : lo' ≤ lo) (hhi : hi ≤ hi') :
    span.IsIn ts lo' hi' :=
  ⟨hlo.trans h.lower, h.start_lt_stop, h.upper.trans hhi, h.first, h.last⟩

/-- From the start of one span to the end of a later one. -/
theorem Span.IsIn.to {first last : Span} (hfirst : first.IsIn ts lo mid)
    (hlast : last.IsIn ts mid hi) : (first.to last).IsIn ts lo hi where
  lower := hfirst.lower
  start_lt_stop := hfirst.start_lt_stop.trans_le
    (hfirst.upper.trans (hlast.lower.trans hlast.start_lt_stop.le))
  upper := hlast.upper
  first := hfirst.first
  last := hlast.last

/-- One span lies in another. -/
def Span.Within (inner outer : Span) : Prop :=
  outer.start ≤ inner.start ∧ inner.stop ≤ outer.stop

theorem Span.Within.trans {inner span outer : Span} (h : inner.Within span)
    (hspan : span.Within outer) : inner.Within outer :=
  ⟨hspan.1.trans h.1, h.2.trans hspan.2⟩

/-- Neither of the nodes begins before the other ends. -/
def Node.Apart (m n : Node) : Prop :=
  m.span.stop ≤ n.span.start ∨ n.span.stop ≤ m.span.start

theorem Node.Apart.symm {m n : Node} (h : m.Apart n) : n.Apart m := Or.symm h

/-- The first node ends where the second one begins, or before. -/
def Node.Before (m n : Node) : Prop := m.span.stop ≤ n.span.start

/-- The nodes are the children of a node in the order of the source. -/
structure Node.Orders (n : Node) (order : List Node) : Prop where
  perm : order.Perm n.children
  rows : ∀ row ∈ n.rows, row.Sublist order

theorem Node.Orders.refl (n : Node) : n.Orders n.children where
  perm := .refl _
  rows := by
    cases n with
    | «class» c =>
      simp only [Node.rows, Node.children, ClassDef.nodes, List.forall_mem_cons, List.append_assoc]
      refine ⟨?_, ?_, nofun⟩
      · exact ((List.sublist_append_left _ _).append_left _).append_left _
      · exact ((List.sublist_append_right _ _).append_left _).append_left _
    | _ => exact List.forall_mem_singleton.mpr (.refl _)

theorem Node.Orders.of_eq {order : List Node} {n : Node} (h : order = n.children) : n.Orders order :=
  h ▸ .refl n

/-- The offset from which on the children of a node stand. In a block that is behind its brace. -/
def Node.inside : Node → ℕ
  | block b => b.span.start + 1
  | n => n.span.start

theorem Node.start_le_inside (n : Node) : n.span.start ≤ n.inside := by
  cases n with
  | block b => exact Nat.le_succ _
  | _ => exact le_rfl

/-- How a node is written: a block begins with a brace, and a property in short form takes the place of
its value. -/
def Node.IsWritten (ts : List Token) : Node → Prop
  | block b => ∃ t ∈ ts, t.kind = .punct .openBrace ∧ t.span.start = b.span.start
  | property (.keyValue _ value true span) => value.span = span
  | _ => True

/-- The node is no block, so that its children may begin where it does, and no property in short
form. -/
def Node.IsPlain : Node → Prop
  | block _ | property (.keyValue _ _ true _) => False
  | _ => True

theorem Node.IsPlain.inside {n : Node} (h : n.IsPlain) : n.inside = n.span.start := by
  cases n <;> first | rfl | exact h.elim

theorem Node.IsPlain.isWritten {n : Node} (h : n.IsPlain) : n.IsWritten ts := by
  unfold IsWritten
  split
  · exact h.elim
  · exact h.elim
  · trivial

/-- **A node in place**: it goes from token to token in a range, and its children are in place inside
of it, apart from each other and row by row in the order of the source. -/
inductive Node.Placed (ts : List Token) : ℕ → ℕ → Node → Prop
  | intro {lo hi : ℕ} {n : Node} (span : n.span.IsIn ts lo hi) (written : n.IsWritten ts)
      (inside : ∀ child ∈ n.children, Node.Placed ts n.inside n.span.stop child)
      (apart : n.children.Pairwise Node.Apart) (rows : ∀ row ∈ n.rows, row.Pairwise Node.Before) :
      Node.Placed ts lo hi n

namespace Node.Placed

variable {n : Node}

theorem span (h : n.Placed ts lo hi) : n.span.IsIn ts lo hi := by
  cases h
  assumption

theorem written (h : n.Placed ts lo hi) : n.IsWritten ts := by
  cases h
  assumption

theorem child (h : n.Placed ts lo hi) {child : Node} (hchild : child ∈ n.children) :
    child.Placed ts n.inside n.span.stop := by
  cases h with
  | intro _ _ inside _ _ => exact inside child hchild

theorem apart (h : n.Placed ts lo hi) : n.children.Pairwise Node.Apart := by
  cases h
  assumption

theorem rows (h : n.Placed ts lo hi) : ∀ row ∈ n.rows, row.Pairwise Node.Before := by
  cases h
  assumption

theorem within (h : n.Placed ts lo hi) {child : Node} (hchild : child ∈ n.children) :
    child.span.Within n.span :=
  ⟨n.start_le_inside.trans (h.child hchild).span.lower, (h.child hchild).span.upper⟩

/-- A node in place is in place in every range that its span fits into. -/
theorem fit (h : n.Placed ts lo hi) (hlo : lo' ≤ n.span.start) (hhi : n.span.stop ≤ hi') :
    n.Placed ts lo' hi' :=
  ⟨⟨hlo, h.span.start_lt_stop, hhi, h.span.first, h.span.last⟩, h.written, fun _ => h.child, h.apart,
    h.rows⟩

theorem mono (h : n.Placed ts lo hi) (hlo : lo' ≤ lo) (hhi : hi ≤ hi') : n.Placed ts lo' hi' :=
  h.fit (hlo.trans h.span.lower) (h.span.upper.trans hhi)

/-- A node below one in place is in place. -/
theorem of_isIn {m : Node} (hn : n.Placed ts lo hi) (h : m.IsIn n) :
    ∃ lo' hi', m.Placed ts lo' hi' := by
  induction h using Relation.ReflTransGen.head_induction_on with
  | refl => exact ⟨lo, hi, hn⟩
  | head hchild _ ih =>
    obtain ⟨lo', hi', hparent⟩ := ih
    exact ⟨_, _, hparent.child hchild⟩

end Node.Placed

/-! ## Nodes in sequence -/

/-- Nodes in place that follow one another in a range. -/
structure Sequence (ts : List Token) (lo hi : ℕ) (nodes : List Node) : Prop where
  le : lo ≤ hi
  placed : ∀ n ∈ nodes, n.Placed ts lo hi
  ordered : nodes.Pairwise Node.Before

theorem sequence_nil (h : lo ≤ hi) : Sequence ts lo hi [] := ⟨h, nofun, List.Pairwise.nil⟩

namespace Sequence

variable {nodes more order : List Node} {n : Node}

theorem mono (h : Sequence ts lo hi nodes) (hlo : lo' ≤ lo) (hhi : hi ≤ hi') :
    Sequence ts lo' hi' nodes :=
  ⟨hlo.trans (h.le.trans hhi), fun n hn => (h.placed n hn).mono hlo hhi, h.ordered⟩

theorem append (h : Sequence ts lo mid nodes) (hmore : Sequence ts mid hi more) :
    Sequence ts lo hi (nodes ++ more) where
  le := h.le.trans hmore.le
  placed := by
    intro n hn
    rcases List.mem_append.mp hn with hn | hn
    · exact (h.placed n hn).mono le_rfl hmore.le
    · exact (hmore.placed n hn).mono h.le le_rfl
  ordered := List.pairwise_append.mpr ⟨h.ordered, hmore.ordered, fun m hm n hn =>
    (h.placed m hm).span.upper.trans (hmore.placed n hn).span.lower⟩

/-- The range can begin where its first node does. -/
theorem from_first (h : Sequence ts lo hi (n :: more)) :
    Sequence ts n.span.start hi (n :: more) where
  le := (h.placed n List.mem_cons_self).span.start_lt_stop.le.trans
    (h.placed n List.mem_cons_self).span.upper
  placed := by
    intro m hm
    refine (h.placed m hm).fit ?_ (h.placed m hm).span.upper
    rcases List.mem_cons.mp hm with rfl | hm
    · exact le_rfl
    · have hnext := (List.pairwise_cons.mp h.ordered).1 m hm
      exact (h.placed n List.mem_cons_self).span.start_lt_stop.le.trans hnext
  ordered := h.ordered

/-- The range can end where its last node does. -/
theorem to_last (h : Sequence ts lo hi (nodes ++ [n])) :
    Sequence ts lo n.span.stop (nodes ++ [n]) where
  le := (h.placed n (by simp)).span.lower.trans (h.placed n (by simp)).span.start_lt_stop.le
  placed := by
    intro m hm
    refine (h.placed m hm).fit (h.placed m hm).span.lower ?_
    rcases List.mem_append.mp hm with hfront | hm
    · have hnext := (List.pairwise_append.mp h.ordered).2.2 m hfront n List.mem_cons_self
      exact hnext.trans (h.placed n (by simp)).span.start_lt_stop.le
    · rw [List.mem_singleton.mp hm]
  ordered := h.ordered

/-- **A node around nodes that follow one another**, which are its children in some order. -/
theorem placed_around (h : Sequence ts n.inside n.span.stop order) (horder : n.Orders order)
    (hspan : n.span.IsIn ts lo hi) (hwritten : n.IsWritten ts) : n.Placed ts lo hi := by
  refine ⟨hspan, hwritten, fun child hchild => h.placed child (horder.perm.mem_iff.mpr hchild), ?_, ?_⟩
  · exact (horder.perm.pairwise_iff Node.Apart.symm).mp (h.ordered.imp .inl)
  · exact fun row hrow => h.ordered.sublist (horder.rows row hrow)

end Sequence

theorem sequence_singleton {n : Node} (h : n.Placed ts lo hi) : Sequence ts lo hi [n] where
  le := h.span.lower.trans (h.span.start_lt_stop.le.trans h.span.upper)
  placed := by
    intro m hm
    rwa [List.mem_singleton.mp hm]
  ordered := List.pairwise_singleton _ n

end Stasis.Script
