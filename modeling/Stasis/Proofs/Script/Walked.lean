import Mathlib
import Stasis.Proofs.Script.Laid

/-!
# The walk through a tree in place

* `Node.Walked`: the walk through a node lays out insertions for it.
* `walked`: it does for every node in place, by induction on the node.
* `layout_insertions`: the insertions of a whole script.
-/

namespace Stasis.Script

open Stasis.Text

variable {α : Type} {hoistAt depth : ℕ} {ts : List Token} {lo hi : ℕ} {d : Draft}

/-- The walk through the node lays out insertions for it, at whatever depth and in whatever role. -/
def Node.Walked (d : Draft) : Node → Prop
  | .expr e => ∀ depth role hoistAt,
    Lays d (e.splice d depth role) hoistAt (checkRank (depth + 1)) [.expr e]
  | .statement s => ∀ depth hoistAt,
    Lays d (s.splice d depth hoistAt) hoistAt (checkRank (depth + 1)) [.statement s]
  | .function f => ∀ depth hoistAt,
    Lays d (f.splice d depth) hoistAt (checkRank (depth + 1)) [.function f]
  | .class c => ∀ depth hoistAt,
    Lays d (c.splice d depth) hoistAt (checkRank (depth + 1)) [.class c]
  | .member m => ∀ depth hoistAt,
    Lays d (m.splice d depth) hoistAt (checkRank (depth + 1)) [.member m]
  | .property p => ∀ depth hoistAt,
    Lays d (p.splice d depth) hoistAt (checkRank (depth + 1)) [.property p]
  | .block b => ∀ depth hoistAt,
    Lays d (b.splice d depth) hoistAt (checkRank (depth + 1)) [.block b]
  | .declaration x => ∀ depth hoistAt,
    Lays d (x.splice d depth) hoistAt (checkRank (depth + 1)) [.declaration x]
  | .binding _ | .name _ => True

/-! ## Parts -/

theorem checkRank_mono {a b : ℕ} (h : a ≤ b) : checkRank a ≤ checkRank b :=
  Nat.mul_le_mul_right 2 h

/-- Parts that are walked through one after another. -/
theorem lays_list {least : ℕ} {walk : List α → Splice Unit}
    {item : α → Splice Unit} {nodes : α → List Node} {parts : List α} (hnil : walk [] = pure ())
    (hcons : ∀ a rest, walk (a :: rest) = item a >>= fun _ => walk rest)
    (h : ∀ a ∈ parts, Lays d (item a) hoistAt least (nodes a)) :
    Lays d (walk parts) hoistAt least (parts.flatMap nodes) := by
  induction parts with
  | nil =>
    rw [hnil]
    exact lays_pure
  | cons a rest ih =>
    rw [List.forall_mem_cons] at h
    rw [hcons]
    exact h.1.bind fun _ => ih h.2

/-- A part that may be absent. -/
theorem lays_optional {least : ℕ} {walk : Option α → Splice Unit}
    {item : α → Splice Unit} {node : α → Node} {part : Option α} (hnone : walk none = pure ())
    (hsome : ∀ a, walk (some a) = item a)
    (h : ∀ a, part = some a → Lays d (item a) hoistAt least [node a]) :
    Lays d (walk part) hoistAt least (optionNodes node part) := by
  cases part with
  | none =>
    rw [hnone]
    exact lays_pure
  | some a =>
    rw [hsome]
    exact h a rfl

theorem lays_option {role : Role} {value : Option Expr}
    (h : ∀ n ∈ optionNodes .expr value, n.Walked d) : Lays d (spliceOption d depth role value)
      hoistAt (checkRank (depth + 1)) (optionNodes .expr value) :=
  lays_optional (by rw [spliceOption]) (fun e => by rw [spliceOption])
    fun e he => h (.expr e) (mem_optionNodes he) depth role hoistAt

theorem lays_element {e : Element} (h : e.node.Walked d) :
    Lays d (e.splice d depth) hoistAt (checkRank (depth + 1)) [e.node] := by
  cases e
  rw [Element.splice]
  exact h depth .operand hoistAt

theorem lays_arguments {items : List Element} (h : ∀ n ∈ items.map Element.node, n.Walked d) :
    Lays d (spliceArguments d depth items) hoistAt (checkRank (depth + 1))
      (items.map Element.node) := by
  rw [List.map_eq_flatMap]
  exact lays_list (by rw [spliceArguments]) (fun e rest => by rw [spliceArguments])
    fun e he => lays_element (h e.node (List.mem_map_of_mem he))

theorem lays_elements {items : List (Option Element)}
    (h : ∀ n ∈ items.flatMap (optionNodes Element.node), n.Walked d) :
    Lays d (spliceElements d depth items) hoistAt (checkRank (depth + 1))
      (items.flatMap (optionNodes Element.node)) := by
  induction items with
  | nil => exact lays_pure
  | cons e rest ih =>
    rw [List.flatMap_cons, List.forall_mem_append] at h
    cases e with
    | none =>
      rw [spliceElements]
      exact ih h.2
    | some e =>
      rw [spliceElements]
      exact (lays_element (h.1 e.node List.mem_cons_self)).bind fun _ => ih h.2

theorem lays_exprs {items : List Expr} (h : ∀ n ∈ items.map Node.expr, n.Walked d) :
    Lays d (spliceExprs d depth items) hoistAt (checkRank (depth + 1))
      (items.map .expr) := by
  rw [List.map_eq_flatMap]
  exact lays_list (by rw [spliceExprs]) (fun e rest => by rw [spliceExprs])
    fun e he => h (.expr e) (List.mem_map_of_mem he) depth .operand hoistAt

theorem lays_access {access : Access} (h : ∀ n ∈ access.nodes, n.Walked d) :
    Lays d (access.splice d depth) hoistAt (checkRank (depth + 1)) access.nodes := by
  cases access with
  | named => exact lays_pure
  | computed key =>
    rw [Access.splice]
    exact h (.expr key) List.mem_cons_self depth .operand hoistAt

theorem lays_propertyName {key : PropertyName} (h : ∀ n ∈ key.nodes, n.Walked d) :
    Lays d (key.splice d depth) hoistAt (checkRank (depth + 1)) key.nodes := by
  cases key with
  | computed key =>
    rw [PropertyName.splice]
    exact h (.expr key) List.mem_cons_self depth .operand hoistAt
  | _ =>
    rw [PropertyName.splice]
    exact lays_pure

/-- The entries of accessors are passed on behind the walk. -/
theorem lays_properties {items : List Property} (h : ∀ n ∈ items.map Node.property, n.Walked d) :
    Lays d (spliceProperties d depth items) hoistAt (checkRank (depth + 1))
      (items.map .property) := by
  induction items with
  | nil => exact lays_pure
  | cons p rest ih =>
    rw [List.map_cons, List.forall_mem_cons] at h
    rw [spliceProperties]
    exact (h.1 depth hoistAt).bind fun _ => (ih h.2).bind_inert fun _ => inserts_pure rfl

/-- Only functions of accessors are recorded in the entry of a property. -/
theorem recordsIn_of_gives_property {p : Property} {entry : List Piece}
    (h : Gives (p.splice d depth) entry) {piece : Piece} (hpiece : piece ∈ entry) :
    ∃ f, Node.function f ∈ p.nodes ∧ piece.RecordsIn d f.span := by
  cases p with
  | getter key f span | setter key f span =>
    rw [Property.splice] at h
    obtain ⟨_, -, h⟩ := h.of_bind
    obtain ⟨_, -, h⟩ := h.of_bind
    exact ⟨f, List.mem_append_right _ List.mem_cons_self,
      recordsIn_of_gives_accessorEntry h piece hpiece⟩
  | method key f span =>
    rw [Property.splice] at h
    obtain ⟨_, -, h⟩ := h.of_bind
    obtain ⟨_, -, h⟩ := h.of_bind
    obtain ⟨_, -, h⟩ := h.of_bind
    obtain rfl := gives_pure_iff.mp h
    cases hpiece
  | keyValue key value shorthand span =>
    rw [Property.splice] at h
    obtain ⟨_, -, h⟩ := h.of_bind
    split at h
    · obtain rfl := gives_pure_iff.mp h
      cases hpiece
    · obtain ⟨_, -, h⟩ := h.of_bind
      obtain rfl := gives_pure_iff.mp h
      cases hpiece
  | spread value span =>
    rw [Property.splice] at h
    obtain ⟨_, -, h⟩ := h.of_bind
    obtain rfl := gives_pure_iff.mp h
    cases hpiece

theorem gives_properties {items : List Property} {entries : List (List Piece)}
    (h : Gives (spliceProperties d depth items) entries) {entry : List Piece}
    (hentry : entry ∈ entries) : ∃ p ∈ items, Gives (p.splice d depth) entry := by
  induction items generalizing entries with
  | nil =>
    rw [spliceProperties] at h
    obtain rfl := gives_pure_iff.mp h
    cases hentry
  | cons p rest ih =>
    rw [spliceProperties] at h
    obtain ⟨first, hfirst, h⟩ := h.of_bind
    obtain ⟨more, hmore, h⟩ := h.of_bind
    obtain rfl := gives_pure_iff.mp h
    rcases List.mem_cons.mp hentry with rfl | hentry
    · exact ⟨p, List.mem_cons_self, hfirst⟩
    · obtain ⟨q, hq, hgives⟩ := ih hmore hentry
      exact ⟨q, List.mem_cons_of_mem p hq, hgives⟩

theorem mem_of_mem_intersperse {β : Type} {a sep : β} {items : List β}
    (h : a ∈ items.intersperse sep) : a = sep ∨ a ∈ items := by
  induction items with
  | nil => exact .inr h
  | cons b rest ih =>
    cases rest with
    | nil => exact .inr h
    | cons c rest =>
      rw [List.intersperse_cons_cons] at h
      rcases List.mem_cons.mp h with rfl | h
      · exact .inr List.mem_cons_self
      · rcases List.mem_cons.mp h with rfl | h
        · exact .inl rfl
        · exact (ih h).imp_right (List.mem_cons_of_mem b)

/-- The entries of a literal record functions inside of it. -/
theorem recordsIn_joinEntries {items : List Property} {entries : List (List Piece)} {span : Span}
    (h : Gives (spliceProperties d depth items) entries)
    (hspan : ∀ p ∈ items, ∀ f, Node.function f ∈ p.nodes → f.span.Within span) :
    ∀ piece ∈ joinEntries entries, piece.RecordsIn d span := by
  intro piece hpiece
  obtain ⟨entry, hentry, hpiece⟩ := List.mem_flatten.mp hpiece
  rcases mem_of_mem_intersperse hentry with rfl | hentry
  · rw [List.mem_singleton.mp hpiece]
    trivial
  · obtain ⟨p, hp, hgives⟩ := gives_properties h (List.mem_filter.mp hentry).1
    obtain ⟨f, hf, hrecords⟩ := recordsIn_of_gives_property hgives hpiece
    exact hrecords.mono (hspan p hp f hf)

/-- A function of a property lies in the literal. -/
theorem within_literal {properties : List Property} {span : Span} {p : Property} {f : FunctionDef}
    (hn : (Node.expr (.object properties span)).Placed ts lo hi) (hp : p ∈ properties)
    (hf : Node.function f ∈ p.nodes) : f.span.Within span := by
  have hchild : Node.property p ∈ (Node.expr (.object properties span)).children :=
    List.mem_map_of_mem hp
  exact ((hn.child hchild).within hf).trans (hn.within hchild)

/-! ## Functions and classes -/

theorem lays_param {p : Param} (h : ∀ n ∈ p.nodes, n.Walked d) :
    Lays d (p.splice d depth) hoistAt (checkRank (depth + 1)) p.nodes := by
  cases p
  rw [Param.splice]
  exact (lays_option (List.forall_mem_cons.mp h).2).of_sublist (List.sublist_cons_self _ _)

theorem lays_params {params : List Param} (h : ∀ n ∈ params.flatMap Param.nodes, n.Walked d) :
    Lays d (spliceParams d depth params) hoistAt (checkRank (depth + 1))
      (params.flatMap Param.nodes) :=
  lays_list (by rw [spliceParams]) (fun p rest => by rw [spliceParams])
    fun p hp => lays_param fun n hn => h n (List.mem_flatMap_of_mem hp hn)

theorem lays_body {body : FunctionBody} (h : body.node.Walked d) :
    Lays d (body.splice d depth) hoistAt (checkRank (depth + 1)) [body.node] := by
  cases body with
  | block b =>
    rw [FunctionBody.splice]
    exact h depth hoistAt
  | expr value =>
    rw [FunctionBody.splice]
    exact h depth .operand hoistAt

theorem lays_constructor {f : Option FunctionDef} (h : ∀ n ∈ optionNodes .function f, n.Walked d) :
    Lays d (spliceConstructor d depth f) hoistAt (checkRank (depth + 1))
      (optionNodes .function f) :=
  lays_optional (by rw [spliceConstructor]) (fun f => by rw [spliceConstructor])
    fun f hf => h (.function f) (mem_optionNodes hf) depth hoistAt

theorem lays_members {members : List ClassMember} (h : ∀ n ∈ members.map Node.member, n.Walked d) :
    Lays d (spliceMembers d depth members) hoistAt (checkRank (depth + 1))
      (members.map .member) := by
  rw [List.map_eq_flatMap]
  exact lays_list (by rw [spliceMembers]) (fun m rest => by rw [spliceMembers])
    fun m hm => h (.member m) (List.mem_map_of_mem hm) depth hoistAt

theorem lays_memberKind {kind : MemberKind} (h : ∀ n ∈ kind.nodes, n.Walked d) :
    Lays d (kind.splice d depth) hoistAt (checkRank (depth + 1)) kind.nodes := by
  cases kind with
  | field value =>
    rw [MemberKind.splice]
    exact lays_option h
  | _ f =>
    rw [MemberKind.splice]
    exact (h (.function f) List.mem_cons_self (depth + 1) hoistAt).weaken
      (checkRank_mono (Nat.le_succ _))

/-! ## Statements -/

theorem lays_block {b : Option Block} (h : ∀ n ∈ optionNodes .block b, n.Walked d) :
    Lays d (spliceBlock d depth b) hoistAt (checkRank (depth + 1))
      (optionNodes .block b) :=
  lays_optional (by rw [spliceBlock]) (fun b => by rw [spliceBlock])
    fun b hb => h (.block b) (mem_optionNodes hb) depth hoistAt

theorem lays_statements {body : List Statement} (h : ∀ n ∈ body.map Node.statement, n.Walked d) :
    Lays d (spliceStatements d depth hoistAt body) hoistAt (checkRank (depth + 1))
      (body.map .statement) := by
  rw [List.map_eq_flatMap]
  exact lays_list (by rw [spliceStatements]) (fun s rest => by rw [spliceStatements])
    fun s hs => h (.statement s) (List.mem_map_of_mem hs) depth hoistAt

theorem lays_declarator {x : Declarator} (h : ∀ n ∈ x.nodes, n.Walked d) :
    Lays d (x.splice d depth) hoistAt (checkRank (depth + 1)) x.nodes := by
  cases x
  rw [Declarator.splice]
  exact (lays_option (List.forall_mem_cons.mp h).2).of_sublist (List.sublist_cons_self _ _)

theorem lays_declarators {items : List Declarator}
    (h : ∀ n ∈ items.flatMap Declarator.nodes, n.Walked d) :
    Lays d (spliceDeclarators d depth items) hoistAt (checkRank (depth + 1))
      (items.flatMap Declarator.nodes) :=
  lays_list (by rw [spliceDeclarators]) (fun x rest => by rw [spliceDeclarators])
    fun x hx => lays_declarator fun n hn => h n (List.mem_flatMap_of_mem hx hn)

theorem lays_forInit {start : Option ForInit} (h : ∀ n ∈ optionNodes ForInit.node start, n.Walked d) :
    Lays d (spliceForInit d depth start) hoistAt (checkRank (depth + 1))
      (optionNodes ForInit.node start) := by
  refine lays_optional (by rw [spliceForInit]) (fun i => by rw [spliceForInit]) fun i hi => ?_
  have hnode := h i.node (mem_optionNodes hi)
  cases i with
  | declaration x =>
    rw [ForInit.splice]
    exact hnode depth hoistAt
  | expr value =>
    rw [ForInit.splice]
    exact hnode depth .target hoistAt

theorem lays_handler {c : Option CatchClause}
    (h : ∀ n ∈ c.toList.flatMap CatchClause.nodes, n.Walked d) :
    Lays d (spliceHandler d depth c) hoistAt (checkRank (depth + 1))
      (c.toList.flatMap CatchClause.nodes) := by
  cases c with
  | none =>
    rw [spliceHandler]
    exact lays_pure
  | some c =>
    obtain ⟨param, body, id⟩ := c
    rw [spliceHandler, CatchClause.splice]
    have hbody : (Node.block body).Walked d := h _ (by simp [CatchClause.nodes])
    exact (hbody depth hoistAt).of_sublist (by simp [CatchClause.nodes])

theorem lays_alternate {s : Option Statement} (h : ∀ n ∈ optionNodes .statement s, n.Walked d) :
    Lays d (spliceAlternate d depth hoistAt s) hoistAt (checkRank (depth + 1))
      (optionNodes .statement s) :=
  lays_optional (by rw [spliceAlternate]) (fun s => by rw [spliceAlternate])
    fun s hs => h (.statement s) (mem_optionNodes hs) depth hoistAt

/-! ## Nodes -/

theorem checkRank_lt_registerRank (depth : ℕ) : checkRank depth < registerRank depth :=
  Nat.lt_succ_self _

theorem registerRank_lt_checkRank (depth : ℕ) : registerRank depth < checkRank (depth + 1) := by
  unfold registerRank checkRank
  omega

theorem checkRank_lt_succ (depth : ℕ) : checkRank depth < checkRank (depth + 1) :=
  (checkRank_lt_registerRank depth).trans (registerRank_lt_checkRank depth)

section Nodes

variable (hts : Located d.source ts)

include hts

/-- An expression is checked behind a walk through its parts. -/
theorem lays_checked {e : Expr} {role : Role} {x : Splice Unit} (hn : (Node.expr e).Placed ts lo hi)
    (hx : Lays d x hoistAt (checkRank (depth + 1 + 1)) e.nodes) :
    Lays d (x >>= fun _ => surroundCheck d (depth + 1) role e) hoistAt
      (checkRank (depth + 1)) [.expr e] :=
  (Lays.enclose (n := .expr e) hx hts hn).wrap fun _ _ =>
    wraps_surroundCheck role e (checkRank_lt_succ _)

/-- A definition is registered, and then checked, behind a walk through it. -/
theorem lays_registered {e : Expr} {role : Role} {x : Splice Unit} {method : String} {id : NodeId}
    {node : Span} (hmethod : runtimeCall method ≠ checkText) (hn : (Node.expr e).Placed ts lo hi)
    (hnode : node.Within e.span)
    (hx : Lays d x hoistAt (checkRank (depth + 1 + 1)) e.nodes) :
    Lays d (do
      x
      surroundRegistration d (depth + 1) method id node e.span
      surroundCheck d (depth + 1) role e) hoistAt (checkRank (depth + 1)) [.expr e] :=
  (Lays.enclose (n := .expr e) hx hts hn).wrap fun _ _ =>
    (wraps_surroundRegistration hmethod id hnode (registerRank_lt_checkRank _)).bind fun _ =>
      wraps_surroundCheck role e (checkRank_lt_registerRank _)

theorem walked_expr {e : Expr} (hn : (Node.expr e).Placed ts lo hi)
    (ih : ∀ n ∈ e.nodes, n.Walked d) : (Node.expr e).Walked d := by
  intro depth role hoistAt
  cases e with
  | number | bigint | text | bool | null | ident | this =>
    rw [Expr.splice]
    exact (wraps_surroundCheck role _ (checkRank_lt_succ _)).lays
  | scopeLookup =>
    rw [Expr.splice]
    exact lays_pure
  | array elements span =>
    rw [Expr.splice]
    exact lays_checked hts hn (lays_elements ih)
  | object properties span =>
    rw [Expr.splice]
    refine (Lays.enclose (n := .expr _) (lays_properties ih) hts hn).wrap fun entries hentries => ?_
    have hrecords := recordsIn_joinEntries hentries fun _ hp _ hf => within_literal hn hp hf
    exact (wraps_surroundAccessors (.object properties span) hrecords
      (registerRank_lt_checkRank _)).bind fun _ =>
        wraps_surroundCheck role _ (checkRank_lt_registerRank _)
  | function f span | arrow f span =>
    rw [Expr.splice]
    have hwithin : f.span.Within span := hn.within List.mem_cons_self
    exact lays_registered hts (by decide) hn hwithin (ih (.function f) List.mem_cons_self (depth + 1) hoistAt)
  | «class» c span =>
    rw [Expr.splice]
    have hwithin : c.span.Within span := hn.within List.mem_cons_self
    exact lays_registered hts (by decide) hn hwithin (ih (.class c) List.mem_cons_self (depth + 1) hoistAt)
  | unary op operand span =>
    rw [Expr.splice]
    exact lays_checked hts hn (ih (.expr operand) List.mem_cons_self (depth + 1) _ hoistAt)
  | update op before target span =>
    rw [Expr.splice]
    exact lays_checked hts hn (ih (.expr target) List.mem_cons_self (depth + 1) _ hoistAt)
  | binary op left right span | logical op left right span | assign op left right span =>
    rw [Expr.splice, ← bind_assoc]
    have hleft := ih (.expr left) (by simp [Expr.nodes]) (depth + 1)
    have hright := ih (.expr right) (by simp [Expr.nodes]) (depth + 1)
    exact lays_checked hts hn ((hleft _ hoistAt).bind fun _ => hright _ hoistAt)
  | conditional test consequent alternate span =>
    rw [Expr.splice, ← bind_assoc, ← bind_assoc]
    have htest := ih (.expr test) (by simp [Expr.nodes]) (depth + 1)
    have hconsequent := ih (.expr consequent) (by simp [Expr.nodes]) (depth + 1)
    have halternate := ih (.expr alternate) (by simp [Expr.nodes]) (depth + 1)
    exact lays_checked hts hn (((htest _ hoistAt).bind fun _ => hconsequent _ hoistAt).bind
      fun _ => halternate _ hoistAt)
  | call callee arguments span =>
    rw [Expr.splice]
    split
    · exact lays_pure
    · rw [← bind_assoc]
      obtain ⟨hcallee, harguments⟩ := List.forall_mem_cons.mp ih
      exact lays_checked hts hn ((hcallee (depth + 1) _ hoistAt).bind fun _ =>
        lays_arguments harguments)
  | new callee arguments span =>
    rw [Expr.splice, ← bind_assoc]
    obtain ⟨hcallee, harguments⟩ := List.forall_mem_cons.mp ih
    exact lays_checked hts hn ((hcallee (depth + 1) _ hoistAt).bind fun _ =>
      lays_arguments harguments)
  | member object access span =>
    rw [Expr.splice, ← bind_assoc]
    obtain ⟨hobject, haccess⟩ := List.forall_mem_cons.mp ih
    exact lays_checked hts hn ((hobject (depth + 1) _ hoistAt).bind fun _ => lays_access haccess)
  | superMember access span =>
    rw [Expr.splice]
    exact lays_checked hts hn (lays_access ih)
  | superCall arguments span =>
    rw [Expr.splice]
    exact lays_checked hts hn (lays_arguments ih)
  | sequence items span =>
    rw [Expr.splice]
    exact (Lays.enclose (n := .expr _) (lays_exprs ih) hts hn).weaken (checkRank_lt_succ _).le

theorem walked_property {p : Property} (hn : (Node.property p).Placed ts lo hi)
    (ih : ∀ n ∈ p.nodes, n.Walked d) : (Node.property p).Walked d := by
  intro depth hoistAt
  refine Lays.enclose (n := .property p) ?_ hts hn
  cases p with
  | keyValue key value shorthand span =>
    obtain ⟨hkey, hvalue⟩ := List.forall_mem_append.mp ih
    rw [Property.splice]
    refine (lays_propertyName hkey).bind fun _ => ?_
    split
    · exact lays_pure
    · exact (hvalue (.expr value) List.mem_cons_self depth _ hoistAt).bind_inert fun _ =>
        inserts_pure rfl
  | method key f span =>
    obtain ⟨hkey, hf⟩ := List.forall_mem_append.mp ih
    rw [Property.splice]
    refine (lays_propertyName hkey).bind fun _ => ?_
    rw [← bind_assoc]
    have hfunction := hf (.function f) List.mem_cons_self (depth + 1) hoistAt
    have hmethod := hfunction.wrap (f := fun _ => surroundMethod d (depth + 1) f) fun _ _ =>
      wraps_surroundMethod f (registerRank_lt_checkRank _)
    exact (hmethod.weaken (checkRank_lt_registerRank _).le).bind_inert fun _ => inserts_pure rfl
  | getter key f span | setter key f span =>
    obtain ⟨hkey, hf⟩ := List.forall_mem_append.mp ih
    rw [Property.splice]
    refine (lays_propertyName hkey).bind fun _ => ?_
    have hfunction := hf (.function f) List.mem_cons_self (depth + 1) hoistAt
    exact (hfunction.weaken (checkRank_lt_succ _).le).bind_inert fun _ =>
      inserts_accessorEntry _ key f
  | spread value span =>
    rw [Property.splice]
    exact (ih (.expr value) List.mem_cons_self depth _ hoistAt).bind_inert fun _ => inserts_pure rfl

theorem walked_function {f : FunctionDef} (hn : (Node.function f).Placed ts lo hi)
    (ih : ∀ n ∈ f.nodes, n.Walked d) : (Node.function f).Walked d := by
  intro depth hoistAt
  refine Lays.enclose (n := .function f) ?_ hts hn
  obtain ⟨id, kind, name, params, rest, body, span, paramsStart⟩ := f
  obtain ⟨hparams, hbody⟩ := List.forall_mem_append.mp (List.forall_mem_append.mp ih).2
  rw [FunctionDef.splice]
  have hparams : Lays d (spliceParams d depth params) hoistAt (checkRank (depth + 1))
      (params.flatMap Param.nodes) := lays_params (List.forall_mem_append.mp hparams).1
  have hwalk := hparams.bind fun _ => lays_body (hbody _ List.mem_cons_self)
  refine hwalk.of_sublist ?_
  -- names of parameters and of the function itself are not walked through
  refine List.Sublist.trans ?_ (List.sublist_append_right _ _)
  exact (List.sublist_append_left _ _).append_right _

theorem walked_class {c : ClassDef} (hn : (Node.class c).Placed ts lo hi)
    (ih : ∀ n ∈ c.nodes, n.Walked d) : (Node.class c).Walked d := by
  intro depth hoistAt
  refine Lays.enclose (n := .class c) ?_ hts hn
  obtain ⟨id, name, superClass, constructor, members, span, declaration⟩ := c
  obtain ⟨hsuper, hrest⟩ := List.forall_mem_append.mp (List.forall_mem_append.mp ih).2
  obtain ⟨hconstructor, hmembers⟩ := List.forall_mem_append.mp hrest
  rw [ClassDef.splice]
  have hsuper : Lays d (spliceOption d depth .operand superClass) hoistAt
      (checkRank (depth + 1)) (optionNodes .expr superClass) := lays_option hsuper
  have hconstructor : Lays d (spliceConstructor d (depth + 1) constructor) hoistAt
      (checkRank (depth + 1)) (optionNodes .function constructor) :=
    (lays_constructor hconstructor).weaken (checkRank_lt_succ (depth + 1)).le
  have hwalk := hsuper.bind fun _ => hconstructor.bind fun _ => lays_members hmembers
  exact hwalk.of_sublist (List.sublist_append_right _ _)

theorem walked_member {m : ClassMember} (hn : (Node.member m).Placed ts lo hi)
    (ih : ∀ n ∈ m.key.nodes ++ m.kind.nodes, n.Walked d) : (Node.member m).Walked d := by
  intro depth hoistAt
  refine Lays.enclose (n := .member m) ?_ hts hn
  obtain ⟨key, static, kind, span⟩ := m
  obtain ⟨hkey, hkind⟩ := List.forall_mem_append.mp ih
  rw [ClassMember.splice]
  exact (lays_propertyName hkey).bind fun _ => lays_memberKind hkind

theorem walked_block {b : Block} (hn : (Node.block b).Placed ts lo hi)
    (ih : ∀ n ∈ b.body.map Node.statement, n.Walked d) : (Node.block b).Walked d := by
  intro depth hoistAt
  refine Lays.enclose_block ?_ hts hn
  obtain ⟨body, span, id⟩ := b
  rw [Block.splice]
  exact lays_statements ih

theorem walked_declaration {x : VariableDecl} (hn : (Node.declaration x).Placed ts lo hi)
    (ih : ∀ n ∈ x.declarators.flatMap Declarator.nodes, n.Walked d) :
    (Node.declaration x).Walked d := by
  intro depth hoistAt
  refine Lays.enclose (n := .declaration x) ?_ hts hn
  obtain ⟨kind, declarators, span⟩ := x
  rw [VariableDecl.splice]
  exact lays_declarators ih

theorem walked_statement {s : Statement} (hn : (Node.statement s).Placed ts lo hi)
    (ih : ∀ n ∈ s.nodes, n.Walked d) : (Node.statement s).Walked d := by
  intro depth hoistAt
  have hinner : ∀ {x : Splice Unit}, Lays d x hoistAt (checkRank (depth + 1 + 1)) s.nodes →
      Lays d x hoistAt (checkRank (depth + 1 + 1)) [.statement s] :=
    fun hx => Lays.enclose (n := .statement s) hx hts hn
  have hweaken := (checkRank_lt_succ (depth + 1)).le
  cases s with
  | function f =>
    rw [Statement.splice]
    have hwalk := hinner (ih (.function f) List.mem_cons_self (depth + 1) hoistAt)
    refine (hwalk.wrap fun _ _ => ?_).weaken (checkRank_lt_registerRank _).le
    exact wraps_hoistRegistration f (registerRank_lt_checkRank _)
  | «class» c =>
    rw [Statement.splice]
    have hwalk := hinner (ih (.class c) List.mem_cons_self (depth + 1) hoistAt)
    refine (hwalk.wrap fun _ _ => ?_).weaken (checkRank_lt_registerRank _).le
    exact wraps_appendRegistration c (registerRank_lt_checkRank _)
  | declaration x =>
    rw [Statement.splice]
    exact (hinner (ih (.declaration x) List.mem_cons_self (depth + 1) hoistAt)).weaken hweaken
  | expr value span | throw value span =>
    rw [Statement.splice]
    exact (hinner (ih (.expr value) List.mem_cons_self (depth + 1) _ hoistAt)).weaken hweaken
  | ret value span =>
    rw [Statement.splice]
    exact (hinner (lays_option ih)).weaken hweaken
  | cond test consequent alternate span =>
    rw [Statement.splice]
    obtain ⟨htest, hrest⟩ := List.forall_mem_cons.mp ih
    obtain ⟨hconsequent, halternate⟩ := List.forall_mem_cons.mp hrest
    refine (hinner ?_).weaken hweaken
    exact (htest (depth + 1) _ hoistAt).bind fun _ =>
      (hconsequent (depth + 1) hoistAt).bind fun _ => lays_alternate halternate
  | «while» test body span =>
    rw [Statement.splice]
    obtain ⟨htest, hrest⟩ := List.forall_mem_cons.mp ih
    refine (hinner ?_).weaken hweaken
    exact (htest (depth + 1) _ hoistAt).bind fun _ =>
      hrest (.statement body) List.mem_cons_self (depth + 1) hoistAt
  | «for» start test update body span id =>
    rw [Statement.splice]
    obtain ⟨hstart, hrest⟩ := List.forall_mem_append.mp ih
    obtain ⟨htest, hrest⟩ := List.forall_mem_append.mp hrest
    obtain ⟨hupdate, hbody⟩ := List.forall_mem_append.mp hrest
    refine (hinner ?_).weaken hweaken
    exact (lays_forInit hstart).bind fun _ => (lays_option htest).bind fun _ =>
      (lays_option hupdate).bind fun _ =>
        hbody (.statement body) List.mem_cons_self (depth + 1) hoistAt
  | block b =>
    rw [Statement.splice]
    exact (hinner (ih (.block b) List.mem_cons_self (depth + 1) hoistAt)).weaken hweaken
  | «try» block handler finalizer span =>
    rw [Statement.splice]
    obtain ⟨hblock, hrest⟩ := List.forall_mem_cons.mp ih
    obtain ⟨hhandler, hfinalizer⟩ := List.forall_mem_append.mp hrest
    refine (hinner ?_).weaken hweaken
    exact (hblock (depth + 1) hoistAt).bind fun _ => (lays_handler hhandler).bind fun _ =>
      lays_block hfinalizer
  | «break» | «continue» | empty =>
    rw [Statement.splice]
    exact lays_pure

/-- **The walk through a node in place lays out insertions for it.** -/
theorem walked {n : Node} (hn : n.Placed ts lo hi) : n.Walked d := by
  induction hn with
  | intro span written inside apart rows ih =>
    have hn := Node.Placed.intro span written inside apart rows
    rename_i n
    cases n with
    | expr e => exact walked_expr hts hn ih
    | statement s => exact walked_statement hts hn ih
    | function f => exact walked_function hts hn ih
    | «class» c => exact walked_class hts hn ih
    | member m => exact walked_member hts hn ih
    | property p => exact walked_property hts hn ih
    | block b => exact walked_block hts hn ih
    | declaration x => exact walked_declaration hts hn ih
    | binding | name => trivial

/-- **The insertions of a script are laid out around its statements.** -/
theorem layout_insertions {p : Program} (h : Sequence ts lo hi (p.body.map .statement)) :
    Layout d 0 (checkRank 1) (p.body.map .statement) (insertions d p) := by
  have hsite : Site d.source 0 (p.body.map .statement) :=
    ⟨isBoundary_zero _, fun _ _ => Nat.zero_le _, fun n hn => (h.placed n hn).span.fits hts,
      h.ordered.imp .inl⟩
  have hwalk : Lays d (spliceStatements d 0 0 p.body) 0 (checkRank 1)
      (p.body.map .statement) := lays_statements fun n hn => walked hts (h.placed n hn)
  obtain ⟨xs, hxs, hlayout⟩ := hwalk hsite #[]
  have heq : insertions d p = xs := by rw [insertions, hxs, List.nil_append]
  rwa [heq]

end Nodes

end Stasis.Script
