import Mathlib
import Stasis.Proofs.Script.Nested
import Stasis.Proofs.Script.Occurrences

/-!
# References in the order of the source

References are noted in the order of the tree. That is the order of the source, unless a class has members in
front of its constructor: the tree lists the constructor first.

* `Node.ConstructorsFirst`: all constructors stand in front of the other members of their classes.
* `Occurrences.inOrder`: then what occurs in nodes follows one another in the source.
* `exists_reference_iff`: the references of a script are the names and `this` in it.
* `captured_inOrder`: the references that a construct captures follow one another.
* `captures_inOrder`: their names are listed in the order in which they occur first.
-/

namespace Stasis.Script

variable {ts : List Token} {lo hi : ℕ} {n : Node} {nodes more : List Node} {xs : List (String × Span)}
  {source label : String} {p : Program}

/-! ## Children in order -/

/-- In all classes in the node the constructor stands in front of the other members. -/
def Node.ConstructorsFirst (n : Node) : Prop :=
  ∀ c : ClassDef, (Node.class c).IsIn n → ∀ f, c.constructor = some f → ∀ m ∈ c.members,
    f.span.stop ≤ m.span.start

theorem Node.ConstructorsFirst.child (h : n.ConstructorsFirst) {child : Node} (hchild : child ∈ n.children) :
    child.ConstructorsFirst :=
  fun c hc => h c (hc.tail hchild)

/-- The children of a class are in order if its constructor is the first of its members. -/
theorem Node.Placed.children_ordered (h : n.Placed ts lo hi) (hfirst : n.ConstructorsFirst) :
    n.children.Pairwise Node.Before := by
  have hrows := h.rows
  cases n with
  | «class» c =>
    simp only [Node.rows, List.forall_mem_cons] at hrows
    obtain ⟨hconstructor, hmembers, -⟩ := hrows
    obtain ⟨hhead, hconstructor, hbefore⟩ := List.pairwise_append.mp hconstructor
    obtain ⟨-, hmembers, hbefore'⟩ := List.pairwise_append.mp hmembers
    have htail : (optionNodes .function c.constructor ++ c.members.map Node.member).Pairwise Node.Before := by
      refine List.pairwise_append.mpr ⟨hconstructor, hmembers, fun k hk l hl => ?_⟩
      obtain ⟨f, hf, rfl⟩ := List.mem_map.mp hk
      obtain ⟨m, hm, rfl⟩ := List.mem_map.mp hl
      exact hfirst c .refl f (Option.mem_toList.mp hf) m hm
    rw [Node.children, ClassDef.nodes, ← List.append_assoc]
    refine List.pairwise_append.mpr ⟨hhead, htail, fun k hk l hl => ?_⟩
    rcases List.mem_append.mp hl with hl | hl
    · exact hbefore k hk l hl
    · exact hbefore' k hk l hl
  | _ => exact List.forall_mem_singleton.mp hrows

/-- The children of a node follow one another in it. -/
theorem Node.Placed.sequence_children (h : n.Placed ts lo hi) (hfirst : n.ConstructorsFirst) :
    Sequence ts n.inside n.span.stop n.children where
  le := by
    have hspan := h.span.start_lt_stop
    cases n with
    | block b => exact hspan
    | _ => exact hspan.le
  placed := fun _ => h.child
  ordered := h.children_ordered hfirst

/-- Behind the first node the others follow. -/
theorem Sequence.tail (h : Sequence ts lo hi (n :: more)) : Sequence ts n.span.stop hi more where
  le := (h.placed n List.mem_cons_self).span.upper
  placed := fun m hm =>
    (h.placed m (List.mem_cons_of_mem n hm)).fit ((List.pairwise_cons.mp h.ordered).1 m hm)
      (h.placed m (List.mem_cons_of_mem n hm)).span.upper
  ordered := (List.pairwise_cons.mp h.ordered).2

/-! ## Occurrences in order -/

/-- **What occurs in nodes that follow one another** does so, too. -/
theorem Occurrences.inOrder (h : Occurrences nodes xs) : ∀ {lo hi : ℕ}, Sequence ts lo hi nodes →
    (∀ n ∈ nodes, n.ConstructorsFirst) → (∀ o ∈ xs, o.2.IsIn ts lo hi) ∧
      xs.Pairwise fun o o' => o.2.stop ≤ o'.2.start := by
  induction h with
  | nil => exact fun _ _ => ⟨nofun, .nil⟩
  | @cons n more below rest hn _ ihn ihmore =>
    intro lo hi hs hfirst
    have hplaced := hs.placed n List.mem_cons_self
    obtain ⟨hnfirst, hmorefirst⟩ := List.forall_mem_cons.mp hfirst
    obtain ⟨hrest, hrestorder⟩ := ihmore hs.tail hmorefirst
    obtain ⟨hbelow, hbeloworder⟩ := ihn (hplaced.sequence_children hnfirst) fun _ => hnfirst.child
    -- the names in the node itself and below it lie in its span
    have hin : ∀ o ∈ n.own ++ below, o.2.IsIn ts n.span.start n.span.stop := by
      intro o ho
      rcases List.mem_append.mp ho with ho | ho
      · rcases n.own_cases with hown | ⟨name, hown, -⟩
        · rw [hown] at ho
          cases ho
        · rw [hown] at ho
          rw [List.mem_singleton.mp ho]
          exact (hplaced.fit le_rfl le_rfl).span
      · exact (hbelow o ho).mono n.start_le_inside le_rfl
    have horder : (n.own ++ below).Pairwise fun o o' => o.2.stop ≤ o'.2.start := by
      rcases n.own_cases with hown | ⟨name, hown, hchildren⟩
      · rwa [hown, List.nil_append]
      · rw [hchildren] at hn
        cases hn
        rw [hown]
        exact List.pairwise_singleton _ _
    rw [← List.append_assoc]
    refine ⟨fun o ho => ?_, List.pairwise_append.mpr ⟨horder, hrestorder, fun o ho o' ho' => ?_⟩⟩
    · rcases List.mem_append.mp ho with ho | ho
      · exact (hin o ho).mono hplaced.span.lower hplaced.span.upper
      · exact (hrest o ho).mono (hplaced.span.lower.trans hplaced.span.start_lt_stop.le) le_rfl
    · exact (hin o ho).upper.trans (hrest o' ho').lower

/-! ## References of a script -/

/-- All constructors of the script stand in front of the other members of their classes. -/
def Program.ConstructorsFirst (p : Program) : Prop :=
  ∀ n ∈ p.body.map Node.statement, n.ConstructorsFirst

theorem mem_own_iff {name : String} {span : Span} : (name, span) ∈ n.own ↔
    (∃ id, n = .expr (.ident name id span)) ∨ name = thisName ∧ n = .expr (.this span) := by
  unfold Node.own
  split
  · simp [eq_comm]
  · simp [eq_comm]
  · next hident hthis =>
    constructor
    · exact nofun
    · rintro (⟨id, rfl⟩ | ⟨-, rfl⟩)
      · exact absurd rfl (hident _ _ _)
      · exact absurd rfl (hthis _)

/-- **The references of a script** are the names and `this` in it. -/
theorem exists_reference_iff (h : parseScript source label = .ok p) (name : String) (span : Span) :
    (∃ r ∈ (analyze p).references, r.name = name ∧ r.span = span) ↔
      (∃ id, p.Has (.expr (.ident name id span))) ∨ name = thisName ∧ p.Has (.expr (.this span)) := by
  obtain ⟨ts, stop, -, hs⟩ := sequence_of_parseScript h
  have hreference : (∃ r ∈ (analyze p).references, r.name = name ∧ r.span = span) ↔
      (name, span) ∈ (analyze p).references.toList.map Reference.occurrence := by
    simp [Reference.occurrence]
  rw [hreference, (occurrences_analyze hs).mem_iff]
  constructor
  · rintro ⟨n, hn, m, hm, ho⟩
    obtain ⟨x, hx, rfl⟩ := List.mem_map.mp hn
    rcases mem_own_iff.mp ho with ⟨id, rfl⟩ | ⟨hname, rfl⟩
    · exact .inl ⟨id, x, hx, hm⟩
    · exact .inr ⟨hname, x, hx, hm⟩
  · rintro (⟨id, x, hx, hm⟩ | ⟨hname, x, hx, hm⟩)
    · exact ⟨_, List.mem_map_of_mem hx, _, hm, mem_own_iff.mpr (.inl ⟨id, rfl⟩)⟩
    · exact ⟨_, List.mem_map_of_mem hx, _, hm, mem_own_iff.mpr (.inr ⟨hname, rfl⟩)⟩

/-- **References follow one another in the source**, each of them once. -/
theorem references_inOrder (h : parseScript source label = .ok p) (hfirst : p.ConstructorsFirst) :
    (analyze p).references.toList.Pairwise fun r s => r.span.start < s.span.start := by
  obtain ⟨ts, stop, -, hs⟩ := sequence_of_parseScript h
  obtain ⟨hin, horder⟩ := (occurrences_analyze hs).inOrder hs hfirst
  refine (List.pairwise_map.mp horder).imp_of_mem fun {r s} hr _ hnext => ?_
  exact (hin _ (List.mem_map_of_mem hr)).start_lt_stop.trans_le hnext

/-- A constructor behind another member is noted before it. -/
example : ((parseScript "class C { m() { a } constructor() { b } }" "").map fun p =>
    (analyze p).references.toList.map Reference.name) = .ok ["b", "a"] := by
  cbv

/-- **What a construct captures** follows one another in the source. -/
theorem captured_inOrder (h : parseScript source label = .ok p) (hfirst : p.ConstructorsFirst)
    (id : NodeId) (span : Span) :
    ((analyze p).captured id span).Pairwise fun r s => r.span.start < s.span.start := by
  unfold Analysis.captured
  split
  · exact .nil
  · exact (references_inOrder h hfirst).filter _

/-- Values of a row, each of them once: one comes before another if it has something in front of all that the
other one has. -/
theorem pairwise_eraseDups {α β : Type} [BEq β] [LawfulBEq β] {R : α → α → Prop} (f : α → β) (xs : List α)
    (h : xs.Pairwise R) : (xs.map f).eraseDups.Pairwise fun y z =>
      ∃ a ∈ xs, f a = y ∧ ∀ b ∈ xs, f b = z → R a b := by
  induction hlength : xs.length using Nat.strong_induction_on generalizing xs with
  | _ k ih =>
    cases xs with
    | nil => exact .nil
    | cons a xs =>
      obtain ⟨hfirst, hrest⟩ := List.pairwise_cons.mp h
      have hshort : (xs.filter fun b => !f b == f a).length < k :=
        hlength ▸ Nat.lt_succ_of_le (List.length_filter_le _ _)
      have htail := ih _ hshort (xs.filter fun b => !f b == f a) (hrest.filter _) rfl
      -- the values behind the first one are other values
      have hother : ∀ z ∈ ((xs.filter fun b => !f b == f a).map f).eraseDups, z ≠ f a := by
        intro z hz
        obtain ⟨b, hb, rfl⟩ := List.mem_map.mp (List.mem_eraseDups.mp hz)
        simpa using (List.mem_filter.mp hb).2
      rw [List.map_cons, List.eraseDups_cons, List.filter_map]
      refine List.pairwise_cons.mpr ⟨fun z hz => ⟨a, List.mem_cons_self, rfl, fun b hb hbz => ?_⟩, ?_⟩
      · rcases List.mem_cons.mp hb with rfl | hb
        · exact absurd hbz.symm (hother z hz)
        · exact hfirst b hb
      · refine htail.imp_of_mem fun {y z} _ hz => ?_
        rintro ⟨c, hc, hcy, hall⟩
        refine ⟨c, List.mem_cons_of_mem a (List.mem_filter.mp hc).1, hcy, fun b hb hbz => ?_⟩
        have hne := hother z hz
        rcases List.mem_cons.mp hb with rfl | hb
        · exact absurd hbz.symm hne
        · exact hall b (List.mem_filter.mpr ⟨hb, by simpa [hbz] using hne⟩) hbz

/-- **The names that a construct captures** are listed in the order in which they occur first. -/
theorem captures_inOrder (h : parseScript source label = .ok p) (hfirst : p.ConstructorsFirst)
    (id : NodeId) (span : Span) : ((analyze p).captures id span).Pairwise fun x y =>
      ∃ r ∈ (analyze p).captured id span, r.name = x ∧
        ∀ s ∈ (analyze p).captured id span, s.name = y → r.span.start < s.span.start :=
  pairwise_eraseDups _ _ (captured_inOrder h hfirst id span)

end Stasis.Script
