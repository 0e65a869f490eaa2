import Mathlib
import Stasis.Proofs.Script.Layout

/-!
# Walking through a tree lays out its insertions

* `Inserts`: what is known of the texts that a walk inserts.
* `Lays`: a walk through nodes inserts a layout for them.
* `Wraps`: what is inserted for a node itself goes around what is inserted inside of it.
* `Lays.enclose`, `Lays.wrap`: a walk through a node, made of one through its inside.
-/

namespace Stasis.Script

open Stasis.Text

variable {α β : Type} {d : Draft} {hoistAt hoistAt' least mid rank depth : ℕ}
  {ts : List Token} {lo hi : ℕ} {n : Node} {nodes more : List Node} {x : Splice α} {f : α → Splice β}
  {P Q : List Insertion → Prop}

/-! ## Walks -/

/-- The walk inserts texts of which `P` holds, behind those that it finds. -/
def Inserts (x : Splice α) (P : List Insertion → Prop) : Prop :=
  ∀ known, ∃ xs, (x.run known).2.toList = known.toList ++ xs ∧ P xs

theorem inserts_pure {a : α} (h : P []) : Inserts (pure a) P :=
  fun known => ⟨[], by simp [pure, StateT.pure, StateT.run], h⟩

/-- The walk answers with `a` behind some insertions. -/
def Gives (x : Splice α) (a : α) : Prop :=
  ∃ known, (x.run known).1 = a

theorem gives_pure_iff {a b : α} : Gives (pure a) b ↔ a = b :=
  ⟨fun ⟨_, h⟩ => h, fun h => ⟨#[], h⟩⟩

/-- The answer of two walks is one of the second, given one of the first. -/
theorem Gives.of_bind {b : β} (h : Gives (x >>= f) b) : ∃ a, Gives x a ∧ Gives (f a) b := by
  obtain ⟨known, h⟩ := h
  exact ⟨_, ⟨known, rfl⟩, _, h⟩

/-- What is inserted behind something may depend on it. -/
theorem Inserts.bind (hx : Inserts x P)
    (hf : ∀ a xs, Gives x a → P xs → Inserts (f a) fun ys => Q (xs ++ ys)) :
    Inserts (x >>= f) Q := by
  intro known
  obtain ⟨xs, hxs, hP⟩ := hx known
  obtain ⟨ys, hys, hQ⟩ := hf (x.run known).1 xs ⟨known, rfl⟩ hP (x.run known).2
  refine ⟨xs ++ ys, ?_, hQ⟩
  rw [← List.append_assoc, ← hxs, ← hys]
  rfl

theorem Inserts.imp (hx : Inserts x P) (h : ∀ xs, P xs → Q xs) : Inserts x Q := by
  intro known
  obtain ⟨xs, hxs, hP⟩ := hx known
  exact ⟨xs, hxs, h xs hP⟩

theorem inserts_insertText (offset : ℕ) (phase : Phase) (rank : ℕ) (owner : Span)
    (pieces : List Piece) : Inserts (insertText offset phase rank owner pieces)
      (· = [⟨offset, phase, rank, owner, pieces⟩]) :=
  fun known => ⟨_, by simp [insertText, modify, modifyGet, MonadStateOf.modifyGet,
    StateT.modifyGet, StateT.run, pure], rfl⟩

theorem inserts_surround (span : Span) (rank : ℕ) (opening : String) (closing : List Piece) :
    Inserts (surround span rank opening closing)
      (· = [⟨span.start, .open, rank, span, [.text opening]⟩,
        ⟨span.stop, .close, rank, span, closing⟩]) := by
  refine (inserts_insertText _ _ _ _ _).bind fun _ xs _ hxs => ?_
  refine (inserts_insertText _ _ _ _ _).imp fun ys hys => ?_
  rw [hxs, hys]
  rfl

/-- A record is made of what has been inserted; nothing is inserted for it. -/
theorem inserts_recordOf (d : Draft) (id : NodeId) (span : Span) (rank : ℕ) (lead : String) :
    Inserts (recordOf d id span rank lead) (· = []) :=
  fun _ => ⟨[], (List.append_nil _).symm, rfl⟩

/-- A record of a construct is one in every span around it. -/
theorem recordsIn_of_gives_recordOf {id : NodeId} {span place : Span} {lead : String}
    {record : Piece} (h : Gives (recordOf d id span rank lead) record) (hspan : span.Within place) :
    record.RecordsIn d place := by
  obtain ⟨_, rfl⟩ := h
  exact ⟨id, span, rfl, hspan⟩

/-! ## Walks through several nodes -/

/-- The walk inserts a layout for the nodes, wherever they stand apart from each other. -/
def Lays (d : Draft) (x : Splice α) (hoistAt least : ℕ) (nodes : List Node) : Prop :=
  Site d.source hoistAt nodes → Inserts x (Layout d hoistAt least nodes)

theorem lays_pure {a : α} : Lays d (pure a) hoistAt least nodes :=
  fun _ => inserts_pure layout_nil

namespace Lays

theorem bind (hx : Lays d x hoistAt least nodes)
    (hf : ∀ a, Lays d (f a) hoistAt least more) :
    Lays d (x >>= f) hoistAt least (nodes ++ more) := by
  intro hsite
  have hfront := hx (hsite.sublist (List.sublist_append_left _ _))
  have hback := fun a => hf a (hsite.sublist (List.sublist_append_right _ _))
  exact hfront.bind fun a xs _ hxs => (hback a).imp fun ys hys => Layout.append hsite hxs hys

/-- Behind the walk nothing more is inserted. -/
theorem bind_inert (hx : Lays d x hoistAt least nodes)
    (hf : ∀ a, Inserts (f a) (· = [])) : Lays d (x >>= f) hoistAt least nodes :=
  fun hsite => (hx hsite).bind fun a xs _ hxs => (hf a).imp fun _ hys =>
    ((congrArg (xs ++ ·) hys).trans (List.append_nil xs)).symm ▸ hxs

/-- Nodes through which the walk does not go do not matter. -/
theorem of_sublist (hx : Lays d x hoistAt least nodes) (hsub : nodes.Sublist more) :
    Lays d x hoistAt least more :=
  fun hsite => (hx (hsite.sublist hsub)).imp fun _ hxs => hxs.mono hsub.subset

theorem weaken (hx : Lays d x hoistAt least nodes) (hle : rank ≤ least) :
    Lays d x hoistAt rank nodes :=
  fun hsite => (hx hsite).imp fun _ hxs => hxs.weaken hle

/-- The children of a node in place are apart, behind an offset inside. -/
theorem site_children (hts : Located d.source ts) (hn : n.Placed ts lo hi)
    (hboundary : IsBoundary d.source hoistAt) (hinside : hoistAt ≤ n.inside) :
    Site d.source hoistAt n.children where
  boundary := hboundary
  behind := fun _ hchild => hinside.trans (hn.child hchild).span.lower
  fits := fun _ hchild => (hn.child hchild).span.fits hts
  apart := hn.apart

/-- **A walk through the children of a node is one through the node.** -/
theorem enclose (hx : Lays d x hoistAt least n.children) (hts : Located d.source ts)
    (hn : n.Placed ts lo hi) : Lays d x hoistAt least [n] := by
  intro hsite
  have hinside := (hsite.behind n List.mem_cons_self).trans n.start_le_inside
  refine (hx (site_children hts hn hsite.boundary hinside)).imp fun xs hxs => ?_
  exact hxs.enclose (fun _ hchild => ⟨hchild, hn.within hchild⟩) (.inl rfl)

/-- Behind the brace of a block is an offset of its own for declarations. -/
theorem enclose_block {b : Block} (hx : Lays d x b.inside least (b.body.map .statement))
    (hts : Located d.source ts) (hn : (Node.block b).Placed ts lo hi) :
    Lays d x hoistAt least [.block b] := by
  intro hsite
  obtain ⟨t, ht, hkind, hstart⟩ := hn.written
  have hboundary : IsBoundary d.source b.inside := by
    have hstop := (hts.located t ht).stop_of_isPunct hkind
    have hone : byteLength Punctuator.openBrace.text.toList = 1 := by decide
    rw [Block.inside, ← hstart, ← hone, ← hstop]
    exact (hts.located t ht).isBoundary_stop
  refine (hx (site_children hts hn hboundary le_rfl)).imp fun xs hxs => ?_
  exact hxs.enclose (fun _ hchild => ⟨hchild, hn.within hchild⟩) (.inr (Nat.le_succ _))

end Lays

/-! ## Texts of a node itself -/

/-- What the walk inserts goes around a layout for the inside of the node. -/
def Wraps (d : Draft) (x : Splice α) (hoistAt least rank : ℕ) (n : Node) : Prop :=
  ∀ ⦃xs⦄, Site d.source hoistAt [n] → Layout d hoistAt least [n] xs →
    Inserts x fun ys => Layout d hoistAt rank [n] (xs ++ ys)

theorem Lays.wrap (hx : Lays d x hoistAt least [n])
    (hf : ∀ a, Gives x a → Wraps d (f a) hoistAt least rank n) :
    Lays d (x >>= f) hoistAt rank [n] :=
  fun hsite => (hx hsite).bind fun a _ ha hxs => hf a ha hsite hxs

/-- A node without an inside. -/
theorem Wraps.lays (hx : Wraps d x hoistAt least rank n) : Lays d x hoistAt rank [n] :=
  fun hsite => hx hsite layout_nil

theorem wraps_pure {a : α} (hle : rank ≤ least) :
    Wraps d (pure a) hoistAt least rank n :=
  fun xs _ hxs => inserts_pure ((List.append_nil xs).symm ▸ hxs.weaken hle :)

theorem Wraps.bind (hx : Wraps d x hoistAt least mid n)
    (hf : ∀ a, Wraps d (f a) hoistAt mid rank n) :
    Wraps d (x >>= f) hoistAt least rank n := by
  intro xs hsite hxs
  refine (hx hsite hxs).bind fun a ys _ hys => (hf a hsite hys).imp fun zs hzs => ?_
  rwa [← List.append_assoc]

/-- A record before the texts of a node changes nothing. -/
theorem wraps_recordOf_bind {id : NodeId} {span : Span} {recordRank : ℕ} {lead : String}
    {f : Piece → Splice β} (hspan : span.Within n.span)
    (hf : ∀ record, record.RecordsIn d n.span → Wraps d (f record) hoistAt least rank n) :
    Wraps d (recordOf d id span recordRank lead >>= f) hoistAt least rank n := by
  intro xs hsite hxs
  refine (inserts_recordOf d id span recordRank lead).bind fun record ys hgives hys => ?_
  rw [hys]
  exact hf record (recordsIn_of_gives_recordOf hgives hspan) hsite hxs

theorem wraps_surround {span : Span} (hspan : span = n.span) (hrank : rank < least)
    {opening : String} {closing : List Piece} (hopening : d.Allows n.span [.text opening])
    (hclosing : d.Allows n.span closing) :
    Wraps d (surround span rank opening closing) hoistAt least rank n := by
  intro xs hsite hxs
  refine (inserts_surround _ _ _ _).imp fun ys hys => ?_
  rw [hys, hspan]
  exact hxs.surround hrank (hsite.fits n List.mem_cons_self) hopening hclosing

theorem wraps_surroundCheck (role : Role) (e : Expr) (hrank : checkRank depth < least) :
    Wraps d (surroundCheck d depth role e) hoistAt least (checkRank depth) (.expr e) := by
  unfold surroundCheck
  split
  · next hcheck =>
    have hbalanced := (Bool.and_eq_true_iff.mp hcheck).2
    exact wraps_surround rfl hrank (allows_check hbalanced) (allows_text (by decide))
  · exact wraps_pure hrank.le

theorem wraps_surroundRegistration {method : String} (hmethod : runtimeCall method ≠ checkText)
    (id : NodeId) {node : Span} {e : Expr} (hnode : node.Within e.span)
    (hrank : registerRank depth < least) :
    Wraps d (surroundRegistration d depth method id node e.span) hoistAt least
      (registerRank depth) (.expr e) :=
  wraps_recordOf_bind hnode fun _ hrecord =>
    wraps_surround rfl hrank (allows_text hmethod) (allows_record hrecord _ _)

theorem wraps_surroundMethod (f : FunctionDef) (hrank : registerRank depth < least) :
    Wraps d (surroundMethod d depth f) hoistAt least (registerRank depth) (.function f) :=
  wraps_recordOf_bind ⟨le_rfl, le_rfl⟩ fun _ hrecord =>
    wraps_surround rfl hrank (allows_text (by decide)) (allows_record hrecord _ _)

theorem wraps_surroundAccessors (e : Expr) {entries : List Piece}
    (hentries : ∀ piece ∈ entries, piece.RecordsIn d e.span) (hrank : registerRank depth < least) :
    Wraps d (surroundAccessors depth e.span entries) hoistAt least (registerRank depth)
      (.expr e) := by
  unfold surroundAccessors
  split
  · refine wraps_surround rfl hrank (allows_text (by decide)) ⟨?_, fun heq => ?_⟩
    · exact List.forall_mem_cons.mpr ⟨trivial, List.forall_mem_append.mpr
        ⟨hentries, List.forall_mem_singleton.mpr trivial⟩⟩
    · have htext : ", [" = checkText := Piece.text.inj (List.cons.inj heq).1
      exact absurd htext (by decide)
  · exact wraps_pure hrank.le

/-- The entry of an accessor records its function. -/
theorem recordsIn_of_gives_accessorEntry {kind : String} {key : PropertyName} {g : FunctionDef}
    {entry : List Piece} (h : Gives (accessorEntry d depth kind key g) entry) :
    ∀ piece ∈ entry, piece.RecordsIn d g.span := by
  unfold accessorEntry at h
  split at h
  · obtain rfl := gives_pure_iff.mp h
    exact nofun
  · obtain ⟨record, hrecord, h⟩ := h.of_bind
    obtain rfl := gives_pure_iff.mp h
    exact recordsIn_around (recordsIn_of_gives_recordOf hrecord ⟨le_rfl, le_rfl⟩) _ _

theorem inserts_accessorEntry (kind : String) (key : PropertyName) (f : FunctionDef) :
    Inserts (accessorEntry d depth kind key f) (· = []) := by
  unfold accessorEntry
  split
  · exact inserts_pure rfl
  · refine (inserts_recordOf _ _ _ _ _).bind fun record xs _ hxs => ?_
    rw [hxs]
    exact inserts_pure rfl

/-- One text that opens nothing, for the node as a whole. -/
theorem wraps_insertText {offset : ℕ} {phase : Phase} {pieces : List Piece} {owner : Span}
    (howner : owner = n.span) (hrank : rank < least) (hphase : phase ≠ .open)
    (hpieces : d.Allows n.span pieces) (hboundary : Site d.source hoistAt [n] → IsBoundary d.source offset)
    (hplace : Site d.source hoistAt [n] → Insertion.HasPlace hoistAt n.span.start
      ⟨offset, phase, rank, owner, pieces⟩) :
    Wraps d (insertText offset phase rank owner pieces) hoistAt least rank n := by
  intro xs hsite hxs
  refine (inserts_insertText _ _ _ _ _).imp fun ys hys => ?_
  rw [hys]
  have hfits := hsite.fits n List.mem_cons_self
  refine hxs.concat hrank ⟨⟨n, .refl, howner⟩, ?_, ?_, le_rfl, hboundary hsite, hplace hsite, ?_⟩
    rfl howner hphase
  · exact howner ▸ ⟨le_rfl, le_rfl⟩
  · exact howner ▸ hfits
  · exact howner ▸ hpieces

theorem wraps_hoistRegistration (f : FunctionDef) (hrank : registerRank depth < least) :
    Wraps d (hoistRegistration d depth hoistAt f) hoistAt least (registerRank depth)
      (.statement (.function f)) := by
  unfold hoistRegistration
  split
  · exact wraps_pure hrank.le
  · refine wraps_recordOf_bind ⟨le_rfl, le_rfl⟩ fun _ hrecord => ?_
    refine wraps_insertText rfl hrank nofun (allows_record hrecord _ _)
      (fun hsite => hsite.boundary) fun hsite => ?_
    exact ⟨hsite.behind _ List.mem_cons_self, .inl rfl⟩

theorem wraps_appendRegistration (c : ClassDef) (hrank : registerRank depth < least) :
    Wraps d (appendRegistration d depth c) hoistAt least (registerRank depth)
      (.statement (.class c)) := by
  unfold appendRegistration
  split
  · exact wraps_pure hrank.le
  · refine wraps_recordOf_bind ⟨le_rfl, le_rfl⟩ fun _ hrecord => ?_
    exact wraps_insertText rfl hrank nofun (allows_record hrecord _ _)
      (fun hsite => (hsite.fits _ List.mem_cons_self).last) fun _ => rfl

end Stasis.Script
