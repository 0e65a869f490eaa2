import Mathlib
import Stasis.Proofs.Script.Nested
import Stasis.Proofs.Script.Occurrences

/-!
# A captured name means one binding

A reference that lies in a construct is looked up from a scope within that of the construct. So what it finds
outside of the construct is what every other reference of the same name finds there.

* `Visits.mem_constructs_iff`: the constructs that a walk notes are those in the tree.
* `Visits.looksUp`: a reference in the place of a construct is looked up from within its scope.
* `exists_construct`: the scope of a construct is found by its number.
* `captured_binding`: what the references mean that a construct captures.
-/

namespace Stasis.Script

variable {ts : List Token} {lo hi : ℕ} {a : Analysis} {scope scope' : ScopeId} {m n : Node}
  {nodes more : List Node} {r : Reference} {rs rs' : List Reference} {c : Construct} {cs cs' : List Construct}
  {id : NodeId} {span : Span} {source label : String} {p : Program}

/-! ## Places of references and constructs -/

/-- The place of a construct lies in its node. -/
theorem Node.Placed.construct_within (h : n.Placed ts lo hi) (hn : n.construct? = some (id, span)) :
    span.Within n.span := by
  unfold Node.construct? at hn
  split at hn
  · obtain ⟨-, rfl⟩ := Prod.mk.inj (Option.some_inj.mp hn)
    exact ⟨le_rfl, le_rfl⟩
  · obtain ⟨-, rfl⟩ := Prod.mk.inj (Option.some_inj.mp hn)
    exact ⟨le_rfl, le_rfl⟩
  · next key _ value _ _ =>
    obtain ⟨-, rfl⟩ := Prod.mk.inj (Option.some_inj.mp hn)
    have hvalue : .expr value ∈ key.nodes ++ [.expr value] := by simp
    exact h.within hvalue
  · cases hn

/-- A node that stands in another one lies in its place. -/
theorem Node.Placed.within_of_isIn (h : n.Placed ts lo hi) (hm : m.IsIn n) : m.span.Within n.span := by
  induction hm using Relation.ReflTransGen.head_induction_on with
  | refl => exact ⟨le_rfl, le_rfl⟩
  | head hchild hparent ih =>
    obtain ⟨lo', hi', hplaced⟩ := h.of_isIn hparent
    exact (hplaced.within hchild).trans ih

/-- Some nodes, each of them in place. -/
def ArePlaced (ts : List Token) (nodes : List Node) : Prop :=
  ∀ n ∈ nodes, ∃ lo hi, n.Placed ts lo hi

namespace Visits

/-- **The constructs that a walk notes** are those in the nodes. -/
theorem mem_constructs_iff (h : Visits a scope nodes rs cs) (x : NodeId × Span) :
    (∃ c ∈ cs, (c.id, c.span) = x) ↔ Builds nodes x := by
  induction h with
  | nil => simp [not_builds_nil]
  | append _ _ ih ihmore =>
    rw [builds_append_iff, ← ih, ← ihmore]
    simp only [List.mem_append, or_and_right, exists_or]
  | @reference _ n r hown hchildren _ =>
    have hn : n.construct? = none := by
      by_contra hne
      obtain ⟨y, hy⟩ := Option.ne_none_iff_exists'.mp hne
      rw [own_of_construct? hy] at hown
      cases hown
    rw [builds_singleton_iff, hn, hchildren]
    simp [not_builds_nil]
  | node _ hn _ ih =>
    rw [builds_singleton_iff, hn, ih]
    simp
  | inner _ _ ih => exact ih
  | construct hn hchildren _ _ _ _ ih ihback =>
    rw [builds_singleton_iff, hchildren, builds_append_iff, ← ih, ← ihback, hn, Option.some_inj]
    simp only [List.mem_append, List.mem_cons, or_and_right, exists_or, exists_eq_left]
    exact or_left_comm

/-- A reference lies in the place of a node. -/
theorem reference_within (h : Visits a scope nodes rs cs) (hplaced : ArePlaced ts nodes) (hr : r ∈ rs) :
    ∃ n ∈ nodes, r.span.Within n.span ∧ r.span.start < r.span.stop := by
  obtain ⟨n, hn, m, hm, hown⟩ := h.occurrences.mem_iff.mp (List.mem_map_of_mem hr)
  obtain ⟨lo, hi, hplaced⟩ := hplaced n hn
  obtain ⟨lo', hi', hmplaced⟩ := hplaced.of_isIn hm
  have hspan : r.span = m.span := by
    rcases m.own_cases with h | ⟨name, h, -⟩
    · rw [h] at hown
      cases hown
    · rw [h] at hown
      exact congrArg Prod.snd (List.mem_singleton.mp hown)
  rw [hspan]
  exact ⟨n, hn, hplaced.within_of_isIn hm, hmplaced.span.start_lt_stop⟩

/-- So does a construct. -/
theorem construct_within (h : Visits a scope nodes rs cs) (hplaced : ArePlaced ts nodes) (hc : c ∈ cs) :
    ∃ n ∈ nodes, c.span.Within n.span := by
  obtain ⟨n, hn, m, hm, hcm⟩ := (h.mem_constructs_iff _).mp ⟨c, hc, rfl⟩
  obtain ⟨lo, hi, hplaced⟩ := hplaced n hn
  obtain ⟨lo', hi', hmplaced⟩ := hplaced.of_isIn hm
  exact ⟨n, hn, (hmplaced.construct_within hcm).trans (hplaced.within_of_isIn hm)⟩

end Visits

/-- A reference in a node does not lie in the place of another node. -/
theorem Reference.not_isIn_of_apart (h : m.Apart n) (hr : r.span.Within m.span)
    (hpos : r.span.start < r.span.stop) (hspan : span.Within n.span) : ¬ r.isIn span = true := by
  intro hin
  have hin : span.start ≤ r.span.start ∧ r.span.stop ≤ span.stop := of_decide_eq_true hin
  obtain ⟨hrstart, hrstop⟩ := hr
  obtain ⟨hstart, hstop⟩ := hspan
  rcases h with h | h <;> omega

/-- What is noted in some nodes does not lie in the constructs in other ones. -/
theorem Visits.not_isIn (h : Visits a scope nodes rs cs) (hmore : Visits a scope' more rs' cs')
    (hplaced : ArePlaced ts nodes) (hplaced' : ArePlaced ts more)
    (hapart : ∀ m ∈ nodes, ∀ n ∈ more, m.Apart n) (hr : r ∈ rs) (hc : c ∈ cs') :
    ¬ r.isIn c.span = true := by
  obtain ⟨m, hm, hrm, hpos⟩ := h.reference_within hplaced hr
  obtain ⟨n, hn, hcn⟩ := hmore.construct_within hplaced' hc
  exact r.not_isIn_of_apart (hapart m hm n hn) hrm hpos hcn

/-! ## Scopes of references -/

/-- The references are looked up from within the scope, and those in the place of a construct from within the
scope of the construct. -/
def LooksUp (a : Analysis) (scope : ScopeId) (rs : List Reference) (cs : List Construct) : Prop :=
  ∀ r ∈ rs, ∃ inner, scope ∈ a.ancestors inner ∧ r.resolved = a.resolve r.name inner ∧
    ∀ c ∈ cs, r.isIn c.span = true → c.scope ∈ a.ancestors inner

namespace LooksUp

/-- References and constructs that lie apart from others. -/
theorem append (h : LooksUp a scope rs cs) (hmore : LooksUp a scope rs' cs')
    (hrs : ∀ r ∈ rs, ∀ c ∈ cs', ¬ r.isIn c.span = true)
    (hrs' : ∀ r ∈ rs', ∀ c ∈ cs, ¬ r.isIn c.span = true) : LooksUp a scope (rs ++ rs') (cs ++ cs') := by
  intro r hr
  rcases List.mem_append.mp hr with hr | hr
  · obtain ⟨inner, hin, hresolved, hscopes⟩ := h r hr
    exact ⟨inner, hin, hresolved, List.forall_mem_append.mpr
      ⟨hscopes, fun c hc hrc => absurd hrc (hrs r hr c hc)⟩⟩
  · obtain ⟨inner, hin, hresolved, hscopes⟩ := hmore r hr
    exact ⟨inner, hin, hresolved, List.forall_mem_append.mpr
      ⟨fun c hc hrc => absurd hrc (hrs' r hr c hc), hscopes⟩⟩

/-- A scope lies in another one. -/
theorem outward (h : LooksUp a scope' rs cs) (hscope : scope ∈ a.ancestors scope') :
    LooksUp a scope rs cs := by
  intro r hr
  obtain ⟨inner, hin, hresolved, hscopes⟩ := h r hr
  exact ⟨inner, Analysis.mem_ancestors_trans hin hscope, hresolved, hscopes⟩

/-- All of the references belong to a construct. -/
theorem construct (h : LooksUp a c.scope rs cs) : LooksUp a c.scope rs (c :: cs) := by
  intro r hr
  obtain ⟨inner, hin, hresolved, hscopes⟩ := h r hr
  exact ⟨inner, hin, hresolved, List.forall_mem_cons.mpr ⟨fun _ => hin, hscopes⟩⟩

end LooksUp

/-- **A reference in the place of a construct is looked up from within its scope.** -/
theorem Visits.looksUp (h : Visits a scope nodes rs cs) :
    ArePlaced ts nodes → nodes.Pairwise Node.Apart → LooksUp a scope rs cs := by
  induction h with
  | nil => exact fun _ _ => nofun
  | @append _ nodes more _ _ _ _ h hmore ih ihmore =>
    intro hplaced hapart
    obtain ⟨hplaced, hplaced'⟩ := List.forall_mem_append.mp hplaced
    obtain ⟨hnodes, hmorenodes, hapart⟩ := List.pairwise_append.mp hapart
    have hapart' : ∀ n ∈ more, ∀ m ∈ nodes, n.Apart m := fun n hn m hm => (hapart m hm n hn).symm
    exact (ih hplaced hnodes).append (ihmore hplaced' hmorenodes)
      (fun r hr c hc => h.not_isIn hmore hplaced hplaced' hapart hr hc)
      (fun r hr c hc => hmore.not_isIn h hplaced' hplaced hapart' hr hc)
  | @reference scope _ s _ _ hr =>
    intro _ _ r hmem
    obtain rfl := List.mem_singleton.mp hmem
    exact ⟨scope, a.self_mem_ancestors scope, hr, nofun⟩
  | @node _ n _ _ _ _ _ ih =>
    intro hplaced _
    obtain ⟨lo, hi, hn⟩ := hplaced n List.mem_cons_self
    exact ih (fun _ hchild => ⟨_, _, hn.child hchild⟩) hn.apart
  | inner hscope _ ih => exact fun hplaced hapart => (ih hplaced hapart).outward hscope
  | @construct _ n front back c _ _ _ _ _ hchildren hspan hscope h hback ih ihback =>
    intro hplaced _
    obtain ⟨lo, hi, hn⟩ := hplaced n List.mem_cons_self
    have hchild : ArePlaced ts (front ++ back) := fun _ hchild => ⟨_, _, hn.child (hchildren ▸ hchild)⟩
    obtain ⟨hplaced, hplaced'⟩ := List.forall_mem_append.mp hchild
    obtain ⟨hfront, hbacknodes, hapart⟩ := List.pairwise_append.mp (hchildren ▸ hn.apart)
    have hapart' : ∀ n ∈ back, ∀ m ∈ front, n.Apart m := fun n hn m hm => (hapart m hm n hn).symm
    refine (ih hplaced hfront).append ((ihback hplaced' hbacknodes).construct.outward hscope)
      (fun r hr => List.forall_mem_cons.mpr ⟨?_, fun c hc => ?_⟩)
      (fun r hr c hc => hback.not_isIn h hplaced' hplaced hapart' hr hc)
    · -- the name of a field stands in front of the place of its initializer
      obtain ⟨m, hm, hrm, hpos⟩ := h.reference_within hplaced hr
      rcases hspan with ⟨rfl, -⟩ | ⟨k, rfl, hk⟩
      · cases hm
      · have hkapart := hapart m hm k List.mem_cons_self
        exact r.not_isIn_of_apart hkapart hrm hpos (hk ▸ ⟨le_rfl, le_rfl⟩)
    · exact h.not_isIn hback hplaced hplaced' hapart hr hc

/-! ## Captured references -/

/-- What a construct captures. -/
theorem Analysis.mem_captured_iff (h : a.constructScope? id = some scope) :
    r ∈ a.captured id span ↔ r ∈ a.references.toList ∧ r.isIn span = true ∧
      ∃ declared, r.resolved = some declared ∧ scope ∉ a.ancestors declared := by
  rw [captured, h]
  simp only [List.mem_filter, Bool.and_eq_true, Option.any_eq_true, Bool.not_eq_true', Bool.eq_false_iff,
    ne_eq, isWithin_iff]

/-- **The scope of a construct is found by its number**, which no other construct bears. -/
theorem exists_construct (h : parseScript source label = .ok p) (hn : p.Has n)
    (hconstruct : n.construct? = some (id, span)) : ∃ c ∈ (analyze p).constructs.toList,
      (analyze p).constructScope? id = some c.scope ∧ c.span = span := by
  obtain ⟨ts, stop, -, hs⟩ := sequence_of_parseScript h
  have hnumbers := numbered_of_parseScript h
  obtain ⟨x, hx, hn⟩ := hn
  have hmem := (visits_analyze hs).2.mem_constructs_iff
  have hbuilds : Builds (p.body.map .statement) (id, span) :=
    ⟨.statement x, List.mem_map_of_mem hx, n, hn, hconstruct⟩
  obtain ⟨d, hd, heq⟩ := (hmem _).mpr hbuilds
  cases hfind : (analyze p).constructs.find? (·.id == id) with
  | none =>
    have hne := Array.find?_eq_none.mp hfind d (Array.mem_toList_iff.mp hd)
    exact absurd (congrArg Prod.fst heq) (by simpa using hne)
  | some c =>
    have hc : c ∈ (analyze p).constructs.toList := Array.mem_toList_iff.mpr (Array.mem_of_find?_eq_some hfind)
    have hid : c.id = id := by simpa using Array.find?_some hfind
    have hsame := hnumbers.unique (c.id, c.span) (id, span) ((hmem _).mp ⟨c, hc, rfl⟩) hbuilds hid
    exact ⟨c, hc, by rw [Analysis.constructScope?, hfind, Option.map_some], congrArg Prod.snd hsame⟩

/-- What a construct captures is declared in proper ancestors of its scope, and all references of one name in
the same one. -/
def Analysis.BindsCaptured (a : Analysis) (id : NodeId) (span : Span) : Prop :=
  ∃ scope, a.constructScope? id = some scope ∧ ∀ r ∈ a.captured id span, ∃ declared,
    r.resolved = some declared ∧ Relation.TransGen a.Parent declared scope ∧
      ∀ s ∈ a.captured id span, s.name = r.name → s.resolved = some declared

/-- **A captured name means one binding**, in every function, class and initializer of a field. The scopes
of a script are a tree with smaller numbers towards its root, in which every walk outwards ends, and meets
all ancestors on its way. -/
theorem captured_binding (h : parseScript source label = .ok p) :
    (analyze p).IsTree ∧ WellFounded (analyze p).Parent ∧
      (∀ outer scope, outer ∈ (analyze p).ancestors scope ↔
        Relation.ReflTransGen (analyze p).Parent outer scope) ∧
      ∀ n id span, p.Has n → n.construct? = some (id, span) → (analyze p).BindsCaptured id span := by
  obtain ⟨ts, stop, -, hs⟩ := sequence_of_parseScript h
  obtain ⟨htree, hvisits⟩ := visits_analyze hs
  refine ⟨htree, htree.wellFounded, fun outer scope => htree.mem_ancestors_iff, ?_⟩
  intro n id span hn hconstruct
  obtain ⟨c, hc, hscope, rfl⟩ := exists_construct h hn hconstruct
  have hplaced : ArePlaced ts (p.body.map .statement) := fun n hn => ⟨_, _, hs.placed n hn⟩
  -- outside of the construct a name means what it means from the scope of the construct
  have houtside : ∀ r ∈ (analyze p).captured id c.span, ∃ declared, r.resolved = some declared ∧
      (analyze p).resolve r.name c.scope = some declared ∧
      Relation.TransGen (analyze p).Parent declared c.scope := by
    intro r hr
    obtain ⟨hr, hin, declared, hdeclared, hout⟩ := (Analysis.mem_captured_iff hscope).mp hr
    obtain ⟨inner, -, hresolved, hscopes⟩ := hvisits.looksUp hplaced (hs.ordered.imp .inl) r hr
    exact ⟨declared, hdeclared,
      Analysis.resolve_of_outside (hscopes c hc hin) (hresolved ▸ hdeclared) hout⟩
  refine ⟨c.scope, hscope, fun r hr => ?_⟩
  obtain ⟨declared, hdeclared, hresolve, hancestor⟩ := houtside r hr
  refine ⟨declared, hdeclared, hancestor, fun s hs hname => ?_⟩
  obtain ⟨found, hfound, hresolve', -⟩ := houtside s hs
  rw [hname, hresolve] at hresolve'
  rw [hfound, hresolve']

/-- A default and an inner function name the same variable from two scopes. -/
theorem captured_binding_default : ∃ p, parseScript "let a; (x = a) => () => a" "" = .ok p ∧
    ((analyze p).captured 5 ⟨7, 25, 1, 8⟩).map (·.name) = ["a", "a"] ∧
    (analyze p).BindsCaptured 5 ⟨7, 25, 1, 8⟩ := by
  let inner : FunctionDef :=
    ⟨4, .arrow, none, [], none, .expr (.ident "a" 3 ⟨24, 25, 1, 25⟩), ⟨18, 25, 1, 19⟩, 18⟩
  let outer : FunctionDef :=
    ⟨5, .arrow, none, [⟨⟨"x", ⟨8, 9, 1, 9⟩, 1⟩, some (.ident "a" 2 ⟨12, 13, 1, 13⟩)⟩], none,
      .expr (.arrow inner ⟨18, 25, 1, 19⟩), ⟨7, 25, 1, 8⟩, 7⟩
  have h : parseScript "let a; (x = a) => () => a" "" = .ok
      ⟨[.declaration ⟨.let, [⟨⟨"a", ⟨4, 5, 1, 5⟩, 0⟩, none⟩], ⟨0, 6, 1, 1⟩⟩,
        .expr (.arrow outer ⟨7, 25, 1, 8⟩) ⟨7, 25, 1, 8⟩], ⟨0, 25, 1, 1⟩⟩ := by
    cbv
  refine ⟨_, h, by cbv, (captured_binding h).2.2.2 (.function outer) 5 _ ?_ rfl⟩
  exact ⟨_, List.mem_cons_of_mem _ List.mem_cons_self,
    .tail (.single List.mem_cons_self) List.mem_cons_self⟩

end Stasis.Script
