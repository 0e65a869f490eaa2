import Mathlib
import Stasis.Proofs.Script.PlacedStatements
import Stasis.Proofs.Script.ScopeTree

/-!
# References and the names they stand for

The walk that resolves names notes one reference for each name and each `this` in the tree, in the order in
which the tree lists them.

* `Occurrences`: the names and `this` in some nodes and below them, in the order of the tree.
* `Visits`: what a walk through nodes notes, with the scope that each name is looked up from.
* `Notes`: a walk notes references and constructs for what is in some nodes.
* `Node.Noted`: the walk through a node does so for the node.
* `noted`: it does for every node in place, by induction on the node.
* `visits_analyze`, `occurrences_analyze`: the references and constructs of a whole script.
-/

namespace Stasis.Script

variable {α β : Type} {ts : List Token} {lo hi : ℕ} {scope : ScopeId} {n : Node} {nodes more : List Node}
  {xs ys : List (String × Span)} {x : Walk α} {f : α → Walk β}

/-! ## Occurrences -/

/-- The name that a node is itself, with its place. -/
def Node.own : Node → List (String × Span)
  | .expr (.ident text _ span) => [(text, span)]
  | .expr (.this span) => [(thisName, span)]
  | _ => []

/-- Names and `this` have nothing below them. -/
theorem Node.own_cases (n : Node) :
    n.own = [] ∨ ∃ name, n.own = [(name, n.span)] ∧ n.children = [] := by
  unfold Node.own
  split
  · exact .inr ⟨_, rfl, rfl⟩
  · exact .inr ⟨_, rfl, rfl⟩
  · exact .inl rfl

/-- The names and `this` that occur in the nodes: those of a node before those of its children, and one child
after another. -/
inductive Occurrences : List Node → List (String × Span) → Prop
  | nil : Occurrences [] []
  | cons {n : Node} {more : List Node} {below rest : List (String × Span)}
      (hn : Occurrences n.children below) (hmore : Occurrences more rest) :
      Occurrences (n :: more) (n.own ++ (below ++ rest))

theorem Occurrences.append (h : Occurrences nodes xs) (hmore : Occurrences more ys) :
    Occurrences (nodes ++ more) (xs ++ ys) := by
  induction h with
  | nil => exact hmore
  | cons hn _ _ ih =>
    rw [List.cons_append, List.append_assoc, List.append_assoc]
    exact .cons hn ih

/-- **What occurs**: the names and `this` among all nodes below. -/
theorem Occurrences.mem_iff {o : String × Span} (h : Occurrences nodes xs) :
    o ∈ xs ↔ ∃ n ∈ nodes, ∃ m : Node, m.IsIn n ∧ o ∈ m.own := by
  induction h with
  | nil => simp
  | @cons n more below rest _ _ ihn ihmore =>
    rw [List.mem_append, List.mem_append, ihn, ihmore]
    constructor
    · rintro (hown | ⟨child, hchild, m, hm, ho⟩ | ⟨k, hk, m, hm, ho⟩)
      · exact ⟨n, List.mem_cons_self, n, .refl, hown⟩
      · exact ⟨n, List.mem_cons_self, m, hm.tail hchild, ho⟩
      · exact ⟨k, List.mem_cons_of_mem n hk, m, hm, ho⟩
    · rintro ⟨k, hk, m, hm, ho⟩
      rcases List.mem_cons.mp hk with rfl | hk
      · rcases Node.isIn_iff.mp hm with rfl | ⟨child, hchild, hm⟩
        · exact .inl ho
        · exact .inr (.inl ⟨child, hchild, m, hm, ho⟩)
      · exact .inr (.inr ⟨k, hk, m, hm, ho⟩)

/-! ## Visits -/

/-- What the reference is an occurrence of. -/
def Reference.occurrence (r : Reference) : String × Span := (r.name, r.span)

/-- A walk through the nodes, in a scope of the analysis, notes these references and these constructs. A name
is looked up from the scope that the walk is in, and a construct is walked through in its own scope: all of
it, or what stands behind the name of a field. -/
inductive Visits (b : Analysis) : ScopeId → List Node → List Reference → List Construct → Prop
  | nil {scope : ScopeId} : Visits b scope [] [] []
  | append {scope : ScopeId} {nodes more : List Node} {rs rs' : List Reference} {cs cs' : List Construct}
      (h : Visits b scope nodes rs cs) (hmore : Visits b scope more rs' cs') :
      Visits b scope (nodes ++ more) (rs ++ rs') (cs ++ cs')
  | reference {scope : ScopeId} {n : Node} {r : Reference} (hown : n.own = [r.occurrence])
      (hchildren : n.children = []) (hr : r.resolved = b.resolve r.name scope) :
      Visits b scope [n] [r] []
  | node {scope : ScopeId} {n : Node} {rs : List Reference} {cs : List Construct} (hown : n.own = [])
      (hn : n.construct? = none) (h : Visits b scope n.children rs cs) : Visits b scope [n] rs cs
  | inner {scope inner : ScopeId} {nodes : List Node} {rs : List Reference} {cs : List Construct}
      (hin : scope ∈ b.ancestors inner) (h : Visits b inner nodes rs cs) : Visits b scope nodes rs cs
  | construct {scope : ScopeId} {n : Node} {front back : List Node} {c : Construct}
      {rs rs' : List Reference} {cs cs' : List Construct} (hn : n.construct? = some (c.id, c.span))
      (hchildren : n.children = front ++ back)
      (hspan : front = [] ∧ c.span = n.span ∨ ∃ k, back = [k] ∧ c.span = k.span)
      (hin : scope ∈ b.ancestors c.scope) (hfront : Visits b scope front rs cs)
      (hback : Visits b c.scope back rs' cs') : Visits b scope [n] (rs ++ rs') (cs ++ c :: cs')

/-- A construct is no name. -/
theorem own_of_construct? {c : NodeId × Span} (h : n.construct? = some c) : n.own = [] := by
  cases n with
  | expr => cases h
  | _ => rfl

/-- **The references are what occurs in the nodes.** -/
theorem Visits.occurrences {b : Analysis} {rs : List Reference} {cs : List Construct}
    (h : Visits b scope nodes rs cs) : Occurrences nodes (rs.map Reference.occurrence) := by
  induction h with
  | nil => exact .nil
  | append _ _ ih ihmore =>
    rw [List.map_append]
    exact ih.append ihmore
  | @reference _ n r hown hchildren _ =>
    have hocc : Occurrences [n] (n.own ++ ([] ++ [])) := .cons (hchildren ▸ .nil) .nil
    rwa [hown] at hocc
  | @node _ n rs _ hown _ _ ih =>
    have hocc : Occurrences [n] (n.own ++ (rs.map Reference.occurrence ++ [])) := .cons ih .nil
    rwa [hown, List.append_nil] at hocc
  | inner _ _ ih => exact ih
  | @construct _ n front back _ rs rs' _ _ hn hchildren _ _ _ _ ih ihback =>
    have hbelow := ih.append ihback
    rw [← hchildren, ← List.map_append] at hbelow
    have hocc : Occurrences [n] (n.own ++ ((rs ++ rs').map Reference.occurrence ++ [])) := .cons hbelow .nil
    rwa [own_of_construct? hn, List.append_nil] at hocc

/-! ## Walks that note references -/

/-- What a walk through the nodes, in a scope, adds to an analysis: scopes, references and constructs. Scopes
that are opened later do not matter. -/
structure Records (scope : ScopeId) (nodes : List Node) (a a' : Analysis) (rs : List Reference)
    (cs : List Construct) : Prop where
  grows : a.Grows a'
  references : a'.references.toList = a.references.toList ++ rs
  constructs : a'.constructs.toList = a.constructs.toList ++ cs
  visits : ∀ b : Analysis, a'.Grows b → Visits b scope nodes rs cs

/-- The walk, in a scope that is open, notes what occurs in the nodes. -/
def Notes (scope : ScopeId) (x : Walk α) (nodes : List Node) : Prop :=
  ∀ a : Analysis, scope < a.scopes.size → ∃ rs cs, Records scope nodes a (x.run a).2 rs cs

theorem notes_pure (v : α) : Notes scope (pure v : Walk α) [] :=
  fun a _ => ⟨[], [], .refl a, (List.append_nil _).symm, (List.append_nil _).symm, fun _ _ => .nil⟩

/-- A name is noted as one occurrence. -/
theorem notes_addReference {name : String} {span : Span} {shorthand : Bool} (hown : n.own = [(name, span)])
    (hchildren : n.children = []) : Notes scope (addReference scope name span shorthand) [n] := by
  intro a hscope
  have hgrows : a.Grows ((addReference scope name span shorthand).run a).2 := .of_eq rfl
  refine ⟨[⟨name, span, a.resolve name scope, shorthand⟩], [], hgrows, Array.toList_push,
    (List.append_nil _).symm, fun b hb => .reference hown hchildren ?_⟩
  exact ((hgrows.trans hb).resolve_eq hscope).symm

/-- **One walk after another.** -/
theorem Notes.bind (hx : Notes scope x nodes) (hf : ∀ v, Notes scope (f v) more) :
    Notes scope (x >>= f) (nodes ++ more) := by
  intro a hscope
  obtain ⟨rs, cs, h⟩ := hx a hscope
  obtain ⟨rs', cs', h'⟩ := hf (x.run a).1 (x.run a).2 (hscope.trans_le h.grows.size_le)
  refine ⟨rs ++ rs', cs ++ cs', h.grows.trans h'.grows, ?_, ?_, ?_⟩
  · rw [← List.append_assoc, ← h.references]
    exact h'.references
  · rw [← List.append_assoc, ← h.constructs]
    exact h'.constructs
  · exact fun b hb => .append (h.visits b (h'.grows.trans hb)) (h'.visits b hb)

/-- A walk through some nodes is one through other nodes of which the same is noted. -/
theorem Notes.imp (h : Notes scope x nodes)
    (himp : ∀ (b : Analysis) (rs : List Reference) (cs : List Construct),
      Visits b scope nodes rs cs → Visits b scope more rs cs) : Notes scope x more := by
  intro a hscope
  obtain ⟨rs, cs, h⟩ := h a hscope
  exact ⟨rs, cs, h.grows, h.references, h.constructs, fun b hb => himp b rs cs (h.visits b hb)⟩

/-- A node is noted by its children. -/
theorem Notes.enclose (h : Notes scope x n.children) (hown : n.own = []) (hn : n.construct? = none) :
    Notes scope x [n] :=
  h.imp fun _ _ _ hvisits => .node hown hn hvisits

theorem visits_binding {a : Analysis} (b : Option Binding) :
    Visits a scope (optionNodes .binding b) [] [] := by
  cases b with
  | none => exact .nil
  | some b => exact .node rfl rfl .nil

/-- Names of declarations in front do not matter. -/
theorem Notes.behind_binding {b : Option Binding} (h : Notes scope x nodes) :
    Notes scope x (optionNodes .binding b ++ nodes) :=
  h.imp fun _ _ _ hvisits => .append (visits_binding b) hvisits

/-- A scope that is opened lies in the one it is opened in, whatever is opened later. -/
theorem mem_ancestors_openScope {a a' b : Analysis} {s : Scope} (hscope : scope < a.scopes.size)
    (hparent : s.parent = some scope) (ha' : a'.scopes = a.scopes.push s) (h : a'.Grows b) :
    scope ∈ b.ancestors a.scopes.size := by
  have hs : b.scopes[a.scopes.size]? = some s :=
    h.kept a.scopes.size s (by rw [ha', Array.getElem?_push_size])
  have hup : b.Parent scope a.scopes.size := Option.bind_eq_some_iff.mpr ⟨s, hs, hparent⟩
  rw [Analysis.ancestors_of_parent hup hscope]
  exact List.mem_cons_of_mem _ (b.self_mem_ancestors scope)

/-- **A walk in a scope of its own.** -/
theorem notes_openScope {kind : ScopeKind} {bindsThis : Bool} {names : List String} {f : ScopeId → Walk β}
    (h : ∀ inner, Notes inner (f inner) nodes) :
    Notes scope (openScope (some scope) kind bindsThis names >>= f) nodes := by
  intro a hscope
  have hsize : a.scopes.size < (a.scopes.push ⟨some scope, kind, bindsThis, names⟩).size := by simp
  obtain ⟨rs, cs, hin⟩ := h a.scopes.size
    { a with scopes := a.scopes.push ⟨some scope, kind, bindsThis, names⟩ } hsize
  refine ⟨rs, cs, .trans (.push rfl hscope rfl) hin.grows, hin.references, hin.constructs, fun b hb => ?_⟩
  exact .inner (mem_ancestors_openScope hscope rfl rfl (hin.grows.trans hb)) (hin.visits b hb)

/-- **A construct is walked through in a scope of its own**, behind what stands in front of its place. -/
theorem notes_construct {kind : ScopeKind} {bindsThis : Bool} {names : List String} {id : NodeId}
    {span : Span} {front back : List Node} {x : Walk α} {f : ScopeId → Walk β}
    (hn : n.construct? = some (id, span)) (hchildren : n.children = front ++ back)
    (hspan : front = [] ∧ span = n.span ∨ ∃ k, back = [k] ∧ span = k.span)
    (hx : Notes scope x front) (hf : ∀ inner, Notes inner (f inner) back) :
    Notes scope (x >>= fun _ => openScope (some scope) kind bindsThis names >>= fun inner =>
      addConstruct id inner span >>= fun _ => f inner) [n] := by
  intro a hscope
  obtain ⟨rs, cs, h⟩ := hx a hscope
  -- the construct is noted when its scope has been opened
  let a₁ : Analysis := (x.run a).2
  let s : Scope := ⟨some scope, kind, bindsThis, names⟩
  let c : Construct := ⟨id, a₁.scopes.size, span⟩
  let a₂ : Analysis := { a₁ with scopes := a₁.scopes.push s, constructs := a₁.constructs.push c }
  have hscope₁ : scope < a₁.scopes.size := hscope.trans_le h.grows.size_le
  have hpush : a₁.Grows a₂ := .push rfl hscope₁ rfl
  obtain ⟨rs', cs', h'⟩ := hf a₁.scopes.size a₂ (by simp [a₂])
  refine ⟨rs ++ rs', cs ++ c :: cs', h.grows.trans (hpush.trans h'.grows), ?_, ?_, fun b hb => ?_⟩
  · rw [← List.append_assoc, ← h.references]
    exact h'.references
  · rw [← List.append_assoc, ← h.constructs, List.append_cons, ← Array.toList_push]
    exact h'.constructs
  · exact .construct hn hchildren hspan (mem_ancestors_openScope hscope₁ rfl rfl (h'.grows.trans hb))
      (h.visits b (hpush.trans (h'.grows.trans hb))) (h'.visits b hb)

/-- A construct that takes the place of a whole node. -/
theorem notes_whole {kind : ScopeKind} {bindsThis : Bool} {names : List String} {id : NodeId}
    {span : Span} {f : ScopeId → Walk β} (hn : n.construct? = some (id, span)) (hspan : span = n.span)
    (hf : ∀ inner, Notes inner (f inner) n.children) :
    Notes scope (openScope (some scope) kind bindsThis names >>= fun inner =>
      addConstruct id inner span >>= fun _ => f inner) [n] := by
  have hnode := @notes_construct Unit β scope n kind bindsThis names id span [] n.children (pure ()) f hn rfl
    (.inl ⟨rfl, hspan⟩) (notes_pure ()) hf
  rwa [pure_bind] at hnode

/-! ## Parts -/

/-- Parts that are walked through one after another. -/
theorem notes_list {walk : List α → Walk Unit} {item : α → Walk Unit} {part : α → List Node} {parts : List α}
    (hnil : walk [] = pure ()) (hcons : ∀ a rest, walk (a :: rest) = item a >>= fun _ => walk rest)
    (h : ∀ a ∈ parts, Notes scope (item a) (part a)) : Notes scope (walk parts) (parts.flatMap part) := by
  induction parts with
  | nil =>
    rw [hnil]
    exact notes_pure ()
  | cons a rest ih =>
    rw [List.forall_mem_cons] at h
    rw [hcons]
    exact h.1.bind fun _ => ih h.2

/-- A part that may be absent. -/
theorem notes_optional {walk : Option α → Walk Unit} {item : α → Walk Unit} {node : α → Node}
    {part : Option α} (hnone : walk none = pure ()) (hsome : ∀ a, walk (some a) = item a)
    (h : ∀ a, part = some a → Notes scope (item a) [node a]) :
    Notes scope (walk part) (optionNodes node part) := by
  cases part with
  | none =>
    rw [hnone]
    exact notes_pure ()
  | some a =>
    rw [hsome]
    exact h a rfl

/-- The walk through the node notes what occurs in it, in whatever scope. A block is walked through with a
scope of its own or without one. -/
def Node.Noted : Node → Prop
  | .expr e => ∀ scope, Notes scope (e.walk scope) [.expr e]
  | .statement s => ∀ scope, Notes scope (s.walk scope) [.statement s]
  | .function f => ∀ scope, Notes scope (f.walk scope) [.function f]
  | .class c => ∀ scope, Notes scope (c.walk scope) [.class c]
  | .member m => ∀ scope, Notes scope (m.walk scope) [.member m]
  | .property p => ∀ scope, Notes scope (p.walk scope) [.property p]
  | .block b => ∀ scope, Notes scope (b.walk scope) [.block b] ∧ Notes scope (b.walkInside scope) [.block b]
  | .declaration x => ∀ scope, Notes scope (x.walk scope) [.declaration x]
  | .binding _ | .name _ => True

theorem notes_option {value : Option Expr} (h : ∀ n ∈ optionNodes .expr value, n.Noted) :
    Notes scope (walkOption scope value) (optionNodes .expr value) :=
  notes_optional (by rw [walkOption]) (fun e => by rw [walkOption])
    fun e he => h (.expr e) (mem_optionNodes he) scope

theorem notes_element {e : Element} (h : e.node.Noted) : Notes scope (e.walk scope) [e.node] := by
  cases e
  rw [Element.walk]
  exact h scope

theorem notes_arguments {items : List Element} (h : ∀ n ∈ items.map Element.node, n.Noted) :
    Notes scope (walkArguments scope items) (items.map Element.node) := by
  rw [List.map_eq_flatMap]
  exact notes_list (by rw [walkArguments]) (fun e rest => by rw [walkArguments])
    fun e he => notes_element (h e.node (List.mem_map_of_mem he))

theorem notes_elements {items : List (Option Element)}
    (h : ∀ n ∈ items.flatMap (optionNodes Element.node), n.Noted) :
    Notes scope (walkElements scope items) (items.flatMap (optionNodes Element.node)) := by
  induction items with
  | nil => exact notes_pure ()
  | cons e rest ih =>
    rw [List.flatMap_cons, List.forall_mem_append] at h
    cases e with
    | none =>
      rw [walkElements]
      exact ih h.2
    | some e =>
      rw [walkElements]
      exact (notes_element (h.1 e.node List.mem_cons_self)).bind fun _ => ih h.2

theorem notes_exprs {items : List Expr} (h : ∀ n ∈ items.map Node.expr, n.Noted) :
    Notes scope (walkExprs scope items) (items.map .expr) := by
  rw [List.map_eq_flatMap]
  exact notes_list (by rw [walkExprs]) (fun e rest => by rw [walkExprs])
    fun e he => h (.expr e) (List.mem_map_of_mem he) scope

theorem notes_access {access : Access} (h : ∀ n ∈ access.nodes, n.Noted) :
    Notes scope (access.walk scope) access.nodes := by
  cases access with
  | named name span =>
    rw [Access.walk]
    exact Notes.enclose (n := .name span) (notes_pure ()) rfl rfl
  | computed key =>
    rw [Access.walk]
    exact h (.expr key) List.mem_cons_self scope

theorem notes_propertyName {key : PropertyName} (h : ∀ n ∈ key.nodes, n.Noted) :
    Notes scope (key.walk scope) key.nodes := by
  cases key with
  | computed key =>
    rw [PropertyName.walk]
    exact h (.expr key) List.mem_cons_self scope
  | _ =>
    rw [PropertyName.walk]
    exact notes_pure ()

theorem notes_properties {items : List Property} (h : ∀ n ∈ items.map Node.property, n.Noted) :
    Notes scope (walkProperties scope items) (items.map .property) := by
  rw [List.map_eq_flatMap]
  exact notes_list (by rw [walkProperties]) (fun p rest => by rw [walkProperties])
    fun p hp => h (.property p) (List.mem_map_of_mem hp) scope

/-! ## Functions and classes -/

theorem notes_param {p : Param} (h : ∀ n ∈ p.nodes, n.Noted) : Notes scope (p.walk scope) p.nodes := by
  cases p with
  | mk binding value =>
    rw [Param.walk]
    exact (notes_option (List.forall_mem_cons.mp h).2).behind_binding (b := some binding)

theorem notes_params {params : List Param} (h : ∀ n ∈ params.flatMap Param.nodes, n.Noted) :
    Notes scope (walkParams scope params) (params.flatMap Param.nodes) :=
  notes_list (by rw [walkParams]) (fun p rest => by rw [walkParams])
    fun p hp => notes_param fun n hn => h n (List.mem_flatMap_of_mem hp hn)

theorem notes_body {body : FunctionBody} (h : body.node.Noted) :
    Notes scope (body.walk scope) [body.node] := by
  cases body with
  | block b =>
    rw [FunctionBody.walk]
    exact (h scope).2
  | expr value =>
    rw [FunctionBody.walk]
    exact h scope

theorem notes_constructor {f : Option FunctionDef} (h : ∀ n ∈ optionNodes .function f, n.Noted) :
    Notes scope (walkConstructor scope f) (optionNodes .function f) :=
  notes_optional (by rw [walkConstructor]) (fun f => by rw [walkConstructor])
    fun f hf => h (.function f) (mem_optionNodes hf) scope

theorem notes_members {members : List ClassMember} (h : ∀ n ∈ members.map Node.member, n.Noted) :
    Notes scope (walkMembers scope members) (members.map .member) := by
  rw [List.map_eq_flatMap]
  exact notes_list (by rw [walkMembers]) (fun m rest => by rw [walkMembers])
    fun m hm => h (.member m) (List.mem_map_of_mem hm) scope

/-! ## Statements -/

theorem notes_block {b : Option Block} (h : ∀ n ∈ optionNodes .block b, n.Noted) :
    Notes scope (walkBlock scope b) (optionNodes .block b) :=
  notes_optional (by rw [walkBlock]) (fun b => by rw [walkBlock])
    fun b hb => (h (.block b) (mem_optionNodes hb) scope).1

theorem notes_statements {body : List Statement} (h : ∀ n ∈ body.map Node.statement, n.Noted) :
    Notes scope (walkStatements scope body) (body.map .statement) := by
  rw [List.map_eq_flatMap]
  exact notes_list (by rw [walkStatements]) (fun s rest => by rw [walkStatements])
    fun s hs => h (.statement s) (List.mem_map_of_mem hs) scope

theorem notes_declarator {x : Declarator} (h : ∀ n ∈ x.nodes, n.Noted) :
    Notes scope (x.walk scope) x.nodes := by
  cases x with
  | mk binding value =>
    rw [Declarator.walk]
    exact (notes_option (List.forall_mem_cons.mp h).2).behind_binding (b := some binding)

theorem notes_declarators {items : List Declarator} (h : ∀ n ∈ items.flatMap Declarator.nodes, n.Noted) :
    Notes scope (walkDeclarators scope items) (items.flatMap Declarator.nodes) :=
  notes_list (by rw [walkDeclarators]) (fun x rest => by rw [walkDeclarators])
    fun x hx => notes_declarator fun n hn => h n (List.mem_flatMap_of_mem hx hn)

theorem notes_forInit {start : Option ForInit} (h : ∀ n ∈ optionNodes ForInit.node start, n.Noted) :
    Notes scope (walkForInit scope start) (optionNodes ForInit.node start) := by
  refine notes_optional (by rw [walkForInit]) (fun i => by rw [walkForInit]) fun i hi => ?_
  have hnode := h i.node (mem_optionNodes hi)
  cases i with
  | declaration x =>
    rw [ForInit.walk]
    exact hnode scope
  | expr value =>
    rw [ForInit.walk]
    exact hnode scope

theorem notes_handler {c : Option CatchClause} (h : ∀ n ∈ c.toList.flatMap CatchClause.nodes, n.Noted) :
    Notes scope (walkHandler scope c) (c.toList.flatMap CatchClause.nodes) := by
  cases c with
  | none =>
    rw [walkHandler]
    exact notes_pure ()
  | some c =>
    obtain ⟨param, body, id⟩ := c
    rw [Option.toList_some, List.flatMap_singleton, CatchClause.nodes] at h ⊢
    rw [walkHandler, CatchClause.walk]
    have hbody := (List.forall_mem_append.mp h).2 (.block body) List.mem_cons_self
    exact (notes_openScope fun inner => (hbody inner).1).behind_binding

theorem notes_alternate {s : Option Statement} (h : ∀ n ∈ optionNodes .statement s, n.Noted) :
    Notes scope (walkAlternate scope s) (optionNodes .statement s) :=
  notes_optional (by rw [walkAlternate]) (fun s => by rw [walkAlternate])
    fun s hs => h (.statement s) (mem_optionNodes hs) scope

/-! ## Nodes -/

theorem noted_expr {e : Expr} (ih : ∀ n ∈ e.nodes, n.Noted) : (Node.expr e).Noted := by
  intro scope
  have hpart {value : Expr} (h : Node.expr value ∈ e.nodes) : Notes scope (value.walk scope) [.expr value] :=
    ih (.expr value) h scope
  cases e with
  | number | bigint | text | bool | null | scopeLookup =>
    rw [Expr.walk]
    exact Notes.enclose (notes_pure ()) rfl rfl
  | ident name id span =>
    rw [Expr.walk]
    exact notes_addReference rfl rfl
  | this span =>
    rw [Expr.walk]
    exact notes_addReference rfl rfl
  | array elements span =>
    rw [Expr.walk]
    exact (notes_elements ih).enclose rfl rfl
  | object properties span =>
    rw [Expr.walk]
    exact (notes_properties ih).enclose rfl rfl
  | function f span | arrow f span =>
    rw [Expr.walk]
    exact (ih (.function f) List.mem_cons_self scope).enclose rfl rfl
  | «class» c span =>
    rw [Expr.walk]
    exact (ih (.class c) List.mem_cons_self scope).enclose rfl rfl
  | unary op operand span =>
    rw [Expr.walk]
    exact (hpart List.mem_cons_self).enclose rfl rfl
  | update op isPrefix target span =>
    rw [Expr.walk]
    exact (hpart List.mem_cons_self).enclose rfl rfl
  | binary op left right span | logical op left right span =>
    rw [Expr.walk]
    exact ((hpart List.mem_cons_self).bind fun _ => hpart (by simp [Expr.nodes])).enclose rfl rfl
  | assign op target value span =>
    rw [Expr.walk]
    exact ((hpart List.mem_cons_self).bind fun _ => hpart (by simp [Expr.nodes])).enclose rfl rfl
  | conditional test consequent alternate span =>
    rw [Expr.walk]
    exact ((hpart List.mem_cons_self).bind fun _ => (hpart (by simp [Expr.nodes])).bind fun _ =>
      hpart (by simp [Expr.nodes])).enclose rfl rfl
  | call callee arguments span | new callee arguments span =>
    rw [Expr.walk]
    exact ((hpart List.mem_cons_self).bind fun _ =>
      notes_arguments (List.forall_mem_cons.mp ih).2).enclose rfl rfl
  | member object access span =>
    rw [Expr.walk]
    exact ((hpart List.mem_cons_self).bind fun _ =>
      notes_access (List.forall_mem_cons.mp ih).2).enclose rfl rfl
  | superMember access span =>
    rw [Expr.walk]
    exact (notes_access ih).enclose rfl rfl
  | superCall arguments span =>
    rw [Expr.walk]
    exact (notes_arguments ih).enclose rfl rfl
  | sequence items span =>
    rw [Expr.walk]
    exact (notes_exprs ih).enclose rfl rfl

theorem noted_property {p : Property} (ih : ∀ n ∈ p.nodes, n.Noted) : (Node.property p).Noted := by
  intro scope
  cases p with
  | keyValue key value shorthand span =>
    obtain ⟨hkey, hvalue⟩ := List.forall_mem_append.mp ih
    refine Notes.enclose (n := .property (.keyValue key value shorthand span)) ?_ rfl rfl
    -- a name is a reference of its own kind here, but no other occurrence
    cases value with
    | ident name id span =>
      rw [Property.walk]
      exact (notes_propertyName hkey).bind fun _ => notes_addReference rfl rfl
    | _ =>
      rw [Property.walk]
      · exact (notes_propertyName hkey).bind fun _ => hvalue _ List.mem_cons_self scope
      all_goals exact nofun
  | method key f span | getter key f span | setter key f span =>
    obtain ⟨hkey, hf⟩ := List.forall_mem_append.mp ih
    rw [Property.walk]
    exact ((notes_propertyName hkey).bind fun _ => hf (.function f) List.mem_cons_self scope).enclose rfl rfl
  | spread value span =>
    rw [Property.walk]
    exact (ih (.expr value) List.mem_cons_self scope).enclose rfl rfl

theorem noted_function {f : FunctionDef} (ih : ∀ n ∈ f.nodes, n.Noted) : (Node.function f).Noted := by
  intro scope
  obtain ⟨id, kind, name, params, rest, body, span, paramsStart⟩ := f
  obtain ⟨-, ih⟩ := List.forall_mem_append.mp ih
  obtain ⟨hparams, hbody⟩ := List.forall_mem_append.mp ih
  obtain ⟨hparams, -⟩ := List.forall_mem_append.mp hparams
  rw [FunctionDef.walk]
  refine notes_whole (n := .function ⟨id, kind, name, params, rest, body, span, paramsStart⟩) rfl rfl
    fun inner => Notes.behind_binding ?_
  simp only [paramNodes, List.append_assoc]
  exact (notes_params hparams).bind fun _ => (notes_body (hbody _ List.mem_cons_self)).behind_binding

theorem noted_class {c : ClassDef} (ih : ∀ n ∈ c.nodes, n.Noted) : (Node.class c).Noted := by
  intro scope
  obtain ⟨id, name, superClass, constructor, members, span, declaration⟩ := c
  obtain ⟨-, ih⟩ := List.forall_mem_append.mp ih
  obtain ⟨hsuper, ih⟩ := List.forall_mem_append.mp ih
  obtain ⟨hconstructor, hmembers⟩ := List.forall_mem_append.mp ih
  rw [ClassDef.walk]
  refine notes_whole (n := .class ⟨id, name, superClass, constructor, members, span, declaration⟩) rfl rfl
    fun inner => Notes.behind_binding ?_
  exact (notes_option hsuper).bind fun _ => (notes_constructor hconstructor).bind fun _ =>
    notes_members hmembers

theorem noted_member {m : ClassMember} (ih : ∀ n ∈ m.key.nodes ++ m.kind.nodes, n.Noted) :
    (Node.member m).Noted := by
  intro scope
  obtain ⟨key, static, kind, span⟩ := m
  obtain ⟨hkey, hkind⟩ := List.forall_mem_append.mp ih
  rw [ClassMember.walk]
  cases kind with
  | field value id =>
    cases value with
    | none =>
      simp only [MemberKind.walk]
      exact Notes.enclose (n := .member ⟨key, static, .field none id, span⟩)
        ((notes_propertyName hkey).bind fun _ => notes_openScope fun _ => notes_pure ()) rfl rfl
    | some value =>
      simp only [MemberKind.walk]
      exact notes_construct (n := .member ⟨key, static, .field (some value) id, span⟩) rfl rfl
        (.inr ⟨.expr value, rfl, rfl⟩) (notes_propertyName hkey) (hkind (.expr value) List.mem_cons_self)
  | method f | getter f | setter f =>
    simp only [MemberKind.walk]
    exact Notes.enclose (n := .member ⟨key, static, _, span⟩)
      ((notes_propertyName hkey).bind fun _ => hkind (.function f) List.mem_cons_self scope) rfl rfl

theorem noted_block {b : Block} (ih : ∀ n ∈ b.body.map Node.statement, n.Noted) : (Node.block b).Noted := by
  intro scope
  obtain ⟨body, span, id⟩ := b
  rw [Block.walk, Block.walkInside]
  refine ⟨Notes.enclose (n := .block ⟨body, span, id⟩) ?_ rfl rfl,
    Notes.enclose (n := .block ⟨body, span, id⟩) (notes_statements ih) rfl rfl⟩
  exact notes_openScope fun inner => notes_statements ih

theorem noted_declaration {x : VariableDecl} (ih : ∀ n ∈ x.declarators.flatMap Declarator.nodes, n.Noted) :
    (Node.declaration x).Noted := by
  intro scope
  obtain ⟨kind, declarators, span⟩ := x
  rw [VariableDecl.walk]
  exact Notes.enclose (n := .declaration ⟨kind, declarators, span⟩) (notes_declarators ih) rfl rfl

theorem noted_statement {s : Statement} (ih : ∀ n ∈ s.nodes, n.Noted) : (Node.statement s).Noted := by
  intro scope
  refine Notes.enclose (n := .statement s) ?_ rfl rfl
  cases s with
  | declaration x =>
    rw [Statement.walk]
    exact ih (.declaration x) List.mem_cons_self scope
  | function f =>
    rw [Statement.walk]
    exact ih (.function f) List.mem_cons_self scope
  | «class» c =>
    rw [Statement.walk]
    exact ih (.class c) List.mem_cons_self scope
  | expr value span | throw value span =>
    rw [Statement.walk]
    exact ih (.expr value) List.mem_cons_self scope
  | ret value span =>
    rw [Statement.walk]
    exact notes_option ih
  | cond test consequent alternate span =>
    obtain ⟨htest, hrest⟩ := List.forall_mem_cons.mp ih
    obtain ⟨hconsequent, halternate⟩ := List.forall_mem_cons.mp hrest
    rw [Statement.walk]
    exact (htest scope).bind fun _ => (hconsequent scope).bind fun _ => notes_alternate halternate
  | «while» test body span =>
    obtain ⟨htest, hrest⟩ := List.forall_mem_cons.mp ih
    rw [Statement.walk]
    exact (htest scope).bind fun _ => hrest (.statement body) List.mem_cons_self scope
  | «for» start test update body span id =>
    obtain ⟨hstart, hrest⟩ := List.forall_mem_append.mp ih
    obtain ⟨htest, hrest⟩ := List.forall_mem_append.mp hrest
    obtain ⟨hupdate, hbody⟩ := List.forall_mem_append.mp hrest
    rw [Statement.walk]
    exact notes_openScope fun inner => (notes_forInit hstart).bind fun _ =>
      (notes_option htest).bind fun _ => (notes_option hupdate).bind fun _ =>
        hbody (.statement body) List.mem_cons_self inner
  | block b =>
    rw [Statement.walk]
    exact (ih (.block b) List.mem_cons_self scope).1
  | «try» block handler finalizer span =>
    obtain ⟨hblock, hrest⟩ := List.forall_mem_cons.mp ih
    obtain ⟨hhandler, hfinalizer⟩ := List.forall_mem_append.mp hrest
    rw [Statement.walk]
    exact (hblock scope).1.bind fun _ => (notes_handler hhandler).bind fun _ => notes_block hfinalizer
  | «break» | «continue» | empty =>
    rw [Statement.walk]
    exact notes_pure ()

/-- **The walk through a node in place notes what occurs in it.** -/
theorem noted (h : n.Placed ts lo hi) : n.Noted := by
  induction h with
  | @intro lo hi n _ _ _ _ _ ih =>
    cases n with
    | expr e => exact noted_expr ih
    | statement s => exact noted_statement ih
    | function f => exact noted_function ih
    | «class» c => exact noted_class ih
    | member m => exact noted_member ih
    | property p => exact noted_property ih
    | block b => exact noted_block ih
    | declaration x => exact noted_declaration ih
    | binding | name => trivial

/-- **The walk through a whole script** begins in the scope of the script, which is the root of all others. -/
theorem visits_analyze {p : Program} (h : Sequence ts lo hi (p.body.map .statement)) :
    (analyze p).IsTree ∧ Visits (analyze p) 0 (p.body.map .statement)
      (analyze p).references.toList (analyze p).constructs.toList := by
  let root : Analysis := { scopes := #[⟨none, .program, true, bodyNames p.body⟩] }
  have hroot : root.IsTree := by
    refine ⟨⟨_, rfl, rfl⟩, fun scope s hs hne => ?_⟩
    exact absurd (Nat.lt_one_iff.mp (Array.getElem?_eq_some_iff.mp hs).1) hne
  have hwalk : Notes 0 (walkStatements 0 p.body) (p.body.map .statement) :=
    notes_statements fun n hn => noted (h.placed n hn)
  obtain ⟨rs, cs, hin⟩ := hwalk root Nat.zero_lt_one
  have hrs : (analyze p).references.toList = rs := hin.references
  have hcs : (analyze p).constructs.toList = cs := hin.constructs
  exact ⟨hin.grows.isTree hroot, hrs ▸ hcs ▸ hin.visits (analyze p) (.refl _)⟩

/-- **The references of a script** are what occurs in its statements. -/
theorem occurrences_analyze {p : Program} (h : Sequence ts lo hi (p.body.map .statement)) :
    Occurrences (p.body.map .statement) ((analyze p).references.toList.map Reference.occurrence) :=
  (visits_analyze h).2.occurrences

end Stasis.Script
