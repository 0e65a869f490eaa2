import Mathlib
import Stasis.Script.Parser
import Stasis.Proofs.Script.Reads

/-!
# Functions and classes in place

What a rule of the grammar reads is in place if what it reads through the other rules is.

* `Places`: the nodes of what a reader reads stand on its way, in this order.
* `Rules.Placing`: rules all of whose readers do so.
* `places_function`, `places_class`: the rules for functions and classes.
-/

namespace Stasis.Script

open Parse

variable {α : Type} {ts : List Token} {s s' s'' : Stream} {lo hi : ℕ}

/-- The nodes of what the reader reads stand on its way, in this order. -/
def Places (ts : List Token) (reader : Parse α) (nodes : α → List Node) : Prop :=
  ∀ ⦃s a s'⦄, s.Sound ts → Reads reader s a s' → s.Passes ts s' (nodes a)

/-- So do those of a reader that is used where a token is left. -/
def PlacesNext (ts : List Token) (reader : Parse α) (nodes : α → List Node) : Prop :=
  ∀ ⦃s a s'⦄, s.Sound ts → s.peek.kind ≠ .eof → Reads reader s a s' → s.Passes ts s' (nodes a)

/-- All readers of the rules place what they read. -/
structure Rules.Placing (ts : List Token) (r : Rules) : Prop where
  statement : Places ts r.statement fun s => [.statement s]
  assignment : Places ts r.assignment fun e => [.expr e]
  unary : Places ts r.unary fun e => [.expr e]
  binary : ∀ least, Places ts (r.binary least) fun e => [.expr e]
  leftHandSide : Places ts r.leftHandSide fun e => [.expr e]
  new : PlacesNext ts r.new fun e => [.expr e]

/-! ## Parts that repeat -/

/-- One more part of a list that is gathered in reverse. -/
theorem Stream.Passes.snoc {nodes : α → List Node} {acc : List α} {a : α}
    (h : s.Passes ts s' (acc.reverse.flatMap nodes)) (ha : s'.Passes ts s'' (nodes a)) :
    s.Passes ts s'' ((a :: acc).reverse.flatMap nodes) := by
  rw [List.reverse_cons, List.flatMap_append, List.flatMap_singleton]
  exact h.trans ha

/-- A name that is declared. -/
theorem places_binding : Places ts binding fun b => [.binding b] := by
  intro s b s' hs h
  simp only [binding, reads_bind_iff, reads_peek_iff] at h
  obtain ⟨_, _, ⟨rfl, rfl⟩, h⟩ := h
  split at h
  · next name hname =>
    have hnext : s.peek.kind ≠ .eof := by simp [hname]
    simp at h
    obtain ⟨-, rfl, rfl⟩ := h
    exact .unnumbered_token hs hnext (.refl (hs.tail hnext)) rfl (.refl _) trivial rfl
  · simp at h
  · simp at h

/-- The end of a statement leaves no node. -/
theorem Stream.Passes.endStatement {nodes : List Node} {u : Unit} (h : s.Passes ts s' nodes)
    (hend : Reads Parse.endStatement s' u s'') : s.Passes ts s'' nodes := by
  simp [Parse.endStatement] at hend
  rcases hend with ⟨-, rfl, -⟩ | ⟨hm, rfl⟩
  · exact h
  · exact h.trans_token (Token.kind_ne_eof_of_isPunct hm)

namespace Rules

variable {r : Rules}

/-! ## The parts of a function -/

theorem places_statementsToBrace (hr : r.Placing ts) :
    Places ts r.statementsToBrace fun body => body.map .statement := by
  intro s body s' hs h
  refine reads_repeat
    (I := fun acc t => s.Passes ts t (acc.reverse.flatMap fun x => [.statement x]))
    (Q := fun body t => s.Passes ts t (body.map .statement)) ?_ (.refl hs) h
  intro acc t y t' hacc h
  simp at h
  rcases h with ⟨hm, rfl, rfl⟩ | ⟨-, -, x, h, rfl⟩
  · have hend := hacc.trans_token (Token.kind_ne_eof_of_isPunct hm)
    rwa [← List.map_eq_flatMap] at hend
  · exact hacc.snoc (hr.statement hacc.sound h)

theorem places_block (hr : r.Placing ts) : Places ts r.block fun b => [.block b] := by
  intro s b s' hs h
  simp [block] at h
  obtain ⟨hm, body, t, hbody, rfl, rfl⟩ := h
  have hinner := places_statementsToBrace hr (hs.tail (Token.kind_ne_eof_of_isPunct hm)) hbody
  exact .around_brace hs hm hinner rfl

theorem places_optionalValue (hr : r.Placing ts) :
    Places ts r.optionalValue (optionNodes .expr) := by
  intro s value s' hs h
  simp [optionalValue] at h
  rcases h with ⟨⟨-, rfl⟩, rfl⟩ | ⟨hm, e, h, rfl⟩
  · exact .refl hs
  · have hnext := Token.kind_ne_eof_of_isPunct hm
    exact .token_trans hs hnext (hr.assignment (hs.tail hnext) h)

/-- The parentheses bear no number. -/
theorem takes_parameters (hr : r.Placing ts) (hs : s.Sound ts)
    {found : List Param × Option Binding} (h : Reads r.parameters s found s') :
    s.Takes ts s' (paramNodes found.1 found.2) := by
  simp [parameters] at h
  obtain ⟨hopen, params, rest, t, h, ⟨hclose, rfl⟩, rfl⟩ := h
  have hnext := Token.kind_ne_eof_of_isPunct hopen
  refine .of_tail hs hnext (.trans_token ?_ (Token.kind_ne_eof_of_isPunct hclose))
  refine reads_repeat (I := fun acc t => s.tail.Passes ts t (acc.reverse.flatMap Param.nodes))
    (Q := fun found t => s.tail.Passes ts t (paramNodes found.1.reverse found.2)) ?_
    (.refl (hs.tail hnext)) h
  intro acc t y t' hacc h
  simp at h
  rcases h with ⟨-, rfl, rfl⟩ | ⟨-, ⟨-, -, name, u, hname, value, v, hvalue, h⟩ | ⟨hm, name, h, rfl⟩⟩
  · simpa [paramNodes, optionNodes] using hacc
  · have hparam := (places_binding hacc.sound hname).trans
      (places_optionalValue hr (places_binding hacc.sound hname).sound hvalue)
    have hmore : s.tail.Passes ts v ((⟨name, value⟩ :: acc).reverse.flatMap Param.nodes) :=
      hacc.snoc hparam
    rcases h with ⟨⟨-, rfl⟩, rfl⟩ | ⟨⟨hm, rfl⟩, rfl⟩
    · simpa [paramNodes, optionNodes] using hmore
    · exact hmore.trans_token (Token.kind_ne_eof_of_isPunct hm)
  · have hnext := Token.kind_ne_eof_of_isPunct hm
    exact hacc.trans (.token_trans hacc.sound hnext (places_binding (hacc.sound.tail hnext) h))

theorem places_parameters (hr : r.Placing ts) :
    Places ts r.parameters fun found => paramNodes found.1 found.2 :=
  fun _ _ _ hs h => (takes_parameters hr hs h).toPasses

/-! ## Functions -/

theorem places_function (hr : r.Placing ts) (kind : FunctionKind) :
    Places ts (r.function kind) fun f => [.function f] := by
  intro s f s' hs h
  simp [function] at h
  obtain ⟨hword, -, h⟩ := h
  have hnext := Token.kind_ne_eof_of_isWord hword
  have htail := hs.tail hnext
  -- a declaration has a name, an expression may have one
  rcases h with ⟨-, name, t, hname, params, rest, u, hparams, body, v, hbody, rfl, rfl⟩ |
    ⟨-, ⟨-, params, rest, u, hparams, body, v, hbody, rfl, rfl⟩ |
      ⟨-, name, t, hname, params, rest, u, hparams, body, v, hbody, rfl, rfl⟩⟩
  · have hname := places_binding htail hname
    have hparams := places_parameters hr hname.sound hparams
    have hbody := places_block hr hparams.sound hbody
    exact .construct_token hs hnext (hname.trans (hparams.trans hbody)) rfl (.refl _) trivial
      fun _ hx => Option.some_inj.mp hx ▸ rfl
  · have hparams := places_parameters hr htail hparams
    have hbody := places_block hr hparams.sound hbody
    exact .construct_token hs hnext (hparams.trans hbody) rfl (.refl _) trivial
      fun _ hx => Option.some_inj.mp hx ▸ rfl
  · have hname := places_binding htail hname
    have hparams := places_parameters hr hname.sound hparams
    have hbody := places_block hr hparams.sound hbody
    exact .construct_token hs hnext (hname.trans (hparams.trans hbody)) rfl (.refl _) trivial
      fun _ hx => Option.some_inj.mp hx ▸ rfl

/-- A function without a name, from its parameters on. -/
theorem passes_nameless {f : FunctionDef} (hs : s.Sound ts) (hname : f.name = none)
    (h : s.Takes ts s' (paramNodes f.params f.rest ++ [f.body.node]))
    (hspan : f.span = s.peek.span.to s'.last) (hid : f.id = s'.nextId) :
    s.Passes ts { s' with nextId := s'.nextId + 1 } [.function f] := by
  refine h.construct_peek hs hspan (.of_eq ?_) trivial fun _ hx => ?_
  · rw [Node.children, FunctionDef.nodes, hname]
    rfl
  · rw [← Option.some_inj.mp hx]
    exact hid

theorem places_method (hr : r.Placing ts) (kind : FunctionKind) :
    Places ts (r.method kind) fun f => [.function f] := by
  intro s f s' hs h
  simp [method] at h
  obtain ⟨params, rest, t, hparams, body, u, hbody, rfl, rfl⟩ := h
  have hparams := takes_parameters hr hs hparams
  have hbody := places_block hr hparams.sound hbody
  exact passes_nameless hs rfl (hparams.trans hbody) rfl rfl

theorem places_arrowParameters (hr : r.Placing ts) :
    Places ts r.arrowParameters fun found => paramNodes found.1 found.2 := by
  intro s found s' hs h
  simp [arrowParameters] at h
  rcases h with ⟨-, h⟩ | ⟨-, name, h, rfl⟩
  · exact places_parameters hr hs h
  · exact places_binding hs h

theorem places_arrow (hr : r.Placing ts) : Places ts r.arrow fun e => [.expr e] := by
  intro s e s' hs h
  simp [arrow] at h
  obtain ⟨params, rest, t, hparams, -, hmark, body, u, hbody, rfl, rfl⟩ := h
  have hparams := places_arrowParameters hr hs hparams
  have hnext := Token.kind_ne_eof_of_isPunct hmark
  have hmark := hparams.sound.tail hnext
  have hbody : t.tail.Passes ts u [body.node] := by
    rcases hbody with ⟨-, b, hbody, rfl⟩ | ⟨-, value, hbody, rfl⟩
    · exact places_block hr hmark hbody
    · exact hr.assignment hmark hbody
  -- the arrow bears no number, so there is one for the function
  have hwhole := (Stream.Takes.of_tail hparams.sound hnext hbody).behind hparams
  have hf := passes_nameless (f := ⟨u.nextId, .arrow, none, params, rest, body,
    s.peek.span.to u.last, s.peek.span.start⟩) hs rfl hwhole rfl rfl
  exact .around_peek hs hf.last_lt hf rfl (.refl _) trivial rfl

/-! ## Classes -/

/-- The name of a property takes at least one token, which bears no number. -/
theorem takes_propertyName (hr : r.Placing ts) {key : PropertyName} (hs : s.Sound ts)
    (h : Reads r.propertyName s key s') : s.Takes ts s' key.nodes := by
  simp only [propertyName, reads_bind_iff, reads_peek_iff] at h
  obtain ⟨_, _, ⟨rfl, rfl⟩, h⟩ := h
  split at h
  case h_1 hkind | h_2 hkind | h_3 hkind =>
    have hnext : s.peek.kind ≠ .eof := by simp [hkind]
    simp at h
    obtain ⟨rfl, rfl⟩ := h
    exact .of_tail hs hnext (.refl (hs.tail hnext))
  case h_4 hkind =>
    have hnext : s.peek.kind ≠ .eof := by simp [hkind]
    simp at h
    obtain ⟨e, t, he, ⟨hm, rfl⟩, rfl⟩ := h
    have he := hr.assignment (hs.tail hnext) he
    exact .of_tail hs hnext (he.trans_token (Token.kind_ne_eof_of_isPunct hm))
  all_goals simp at h

@[simp] theorem reads_isModifier_iff {word : String} {found : Bool} :
    Reads (isModifier word) s found s' ↔
      (s.peek.isWord word && !endsMemberName (s.peekAt 1)) = found ∧ s = s' := by
  simp only [isModifier, reads_bind_iff, reads_peek_iff, reads_peekAt_iff, reads_pure_iff]
  constructor
  · rintro ⟨_, _, ⟨rfl, rfl⟩, _, _, ⟨rfl, rfl⟩, rfl, rfl⟩
    exact ⟨rfl, rfl⟩
  · rintro ⟨rfl, rfl⟩
    exact ⟨_, _, ⟨rfl, rfl⟩, _, _, ⟨rfl, rfl⟩, rfl, rfl⟩

theorem places_accessorKind : Places ts accessorKind fun _ => [] := by
  intro s found s' hs h
  simp [accessorKind] at h
  rcases h with ⟨⟨hw, -⟩, rfl, -⟩ | ⟨-, ⟨⟨hw, -⟩, rfl, -⟩ | ⟨-, -, rfl⟩⟩
  · exact .token hs (Token.kind_ne_eof_of_isWord hw)
  · exact .token hs (Token.kind_ne_eof_of_isWord hw)
  · exact .refl hs

theorem construct?_memberFunction {accessor : Option FunctionKind} {m : ClassMember}
    (h : Reads (r.memberFunction accessor) s m.kind s') : (Node.member m).construct? = none := by
  obtain ⟨key, static, kind, span⟩ := m
  unfold memberFunction at h
  split at h <;> simp at h <;> obtain ⟨f, -, rfl⟩ := h <;> rfl

theorem places_memberFunction (hr : r.Placing ts) (accessor : Option FunctionKind) :
    Places ts (r.memberFunction accessor) MemberKind.nodes := by
  intro s kind s' hs h
  unfold memberFunction at h
  split at h <;> simp at h <;> obtain ⟨f, h, rfl⟩ := h <;> exact places_method hr _ hs h

/-- A name and what it names are a member, behind words that leave no node. -/
theorem passes_member {t u : Stream} {m : ClassMember} (hs : s.Sound ts) (hstart : s.Passes ts t [])
    (hkey : t.Takes ts u m.key.nodes) (hkind : u.Passes ts s' m.kind.nodes)
    (hspan : m.span = s.peek.span.to s'.last) (hm : (Node.member m).construct? = none) :
    s.Passes ts s' [.member m] :=
  ((hkey.trans hkind).behind hstart).around_peek hs hspan (.refl _) trivial hm

/-- So are a name and the initializer of a field. -/
theorem passes_field {t u : Stream} {key : PropertyName} {static : Bool} {value : Option Expr}
    (hs : s.Sound ts) (hstart : s.Passes ts t []) (hkey : t.Takes ts u key.nodes)
    (hvalue : u.Passes ts s' (optionNodes .expr value)) :
    s.Passes ts { s' with nextId := s'.nextId + 1 }
      [.member ⟨key, static, .field value s'.nextId, s.peek.span.to s'.last⟩] := by
  refine ((hkey.trans hvalue).behind hstart).construct_peek hs rfl (.refl _) trivial fun x hx => ?_
  cases value with
  | none => cases hx
  | some value => exact Option.some_inj.mp hx ▸ rfl

/-- The node of what is the constructor or another member. -/
def memberNode : FunctionDef ⊕ ClassMember → Node
  | .inl f => .function f
  | .inr m => .member m

/-- A class has no second constructor. -/
theorem passes_classMember (hr : r.Placing ts) {known : Option FunctionDef}
    {found : FunctionDef ⊕ ClassMember} (hs : s.Sound ts)
    (h : Reads (r.classMember known) s found s') :
    s.Passes ts s' [memberNode found] ∧ (found.isLeft → known = none) := by
  simp only [classMember, reads_bind_iff, reads_peek_iff, reads_isModifier_iff] at h
  obtain ⟨_, _, ⟨rfl, rfl⟩, static, _, ⟨hstatic, rfl⟩, h⟩ := h
  have hbehind : static = true → s.peek.kind ≠ .eof := by
    rintro rfl
    exact Token.kind_ne_eof_of_isWord (Bool.and_eq_true_iff.mp hstatic).1
  simp at h
  replace h := reads_join h
  obtain ⟨accessor, t, hstart, -, -, key, u, hkey, h⟩ := h
  have hstart : s.Passes ts t [] := by
    rcases hstart with ⟨hword, hstart⟩ | ⟨-, hstart⟩
    · have hnext := hbehind hword
      exact .token_trans hs hnext (places_accessorKind (hs.tail hnext) hstart)
    · exact places_accessorKind hs hstart
  have hkey := takes_propertyName hr hstart.sound hkey
  rcases h with ⟨-, ⟨⟨-, hname⟩, hknown, f, h, rfl⟩ | ⟨-, kind, h, rfl⟩⟩ |
    ⟨-, -, value, v, hvalue, _, w, hend, rfl, rfl⟩
  · -- the name of a constructor leaves no node
    have hkey : t.Passes ts u [] := by
      cases key with
      | computed => simp [isConstructorName] at hname
      | _ => exact hkey.toPasses
    exact ⟨hstart.trans (hkey.trans (places_method hr _ hkey.sound h)), fun _ => hknown⟩
  · have hkind := places_memberFunction hr _ hkey.sound h
    exact ⟨passes_member hs hstart hkey hkind rfl (construct?_memberFunction h),
      fun hleft => absurd hleft Bool.false_ne_true⟩
  · have hvalue := (places_optionalValue hr hkey.sound hvalue).endStatement hend
    exact ⟨passes_field hs hstart hkey hvalue, fun hleft => absurd hleft Bool.false_ne_true⟩

/-- The constructor and the other members of a class, as they stand in the source. -/
structure Interleaves (order : List Node) (constructor : Option FunctionDef)
    (members : List ClassMember) : Prop where
  perm : order.Perm (optionNodes .function constructor ++ members.map .member)
  constructor : (optionNodes .function constructor).Sublist order
  members : (members.map Node.member).Sublist order

theorem places_classBody (hr : r.Placing ts) (hs : s.Sound ts) {constructor : Option FunctionDef}
    {members : List ClassMember} (h : Reads r.classBody s (constructor, members) s') :
    ∃ order, s.Passes ts s' order ∧ Interleaves order constructor members := by
  have hnone : Interleaves [] none [] := ⟨.refl _, .slnil, .slnil⟩
  refine reads_repeat
    (I := fun known t => ∃ order, s.Passes ts t order ∧ Interleaves order known.1 known.2.reverse)
    (Q := fun found t => ∃ order, s.Passes ts t order ∧ Interleaves order found.1 found.2) ?_
    ⟨[], .refl hs, hnone⟩ h
  rintro ⟨known, acc⟩ t y t' ⟨order, horder, hmixed⟩ h
  simp at h
  rcases h with ⟨hm, rfl, rfl⟩ |
    ⟨-, -, ⟨-, ⟨f, h, rfl⟩ | ⟨m, h, rfl⟩⟩ | ⟨⟨hm, rfl⟩, rfl⟩⟩
  · exact ⟨order, horder.trans_token (Token.kind_ne_eof_of_isPunct hm), hmixed⟩
  · obtain ⟨hf, hknown⟩ := passes_classMember hr horder.sound h
    obtain rfl := hknown rfl
    refine ⟨_, horder.trans hf, ?_, List.sublist_append_right _ _, ?_⟩
    · exact (hmixed.perm.append_right _).trans List.perm_append_comm
    · exact hmixed.members.trans (List.sublist_append_left _ _)
  · obtain ⟨hm, -⟩ := passes_classMember hr horder.sound h
    refine ⟨_, horder.trans hm, ?_, hmixed.constructor.trans (List.sublist_append_left _ _), ?_⟩
    · simpa [memberNode] using hmixed.perm.append_right [.member m]
    · simpa [memberNode] using hmixed.members.append (.refl [Node.member m])
  · exact ⟨order, horder.trans_token (Token.kind_ne_eof_of_isPunct hm), hmixed⟩

/-- A name, what the class extends and its members are a class, behind its keyword. -/
theorem passes_class (hr : r.Placing ts) {c : ClassDef} {t u v : Stream}
    (hs : s.Sound ts) (hnext : s.peek.kind ≠ .eof)
    (hname : s.tail.Passes ts t (optionNodes .binding c.name))
    (hsuper : t.Passes ts u (optionNodes .expr c.superClass))
    (hm : u.peek.isPunct .openBrace = true)
    (h : Reads r.classBody u.tail (c.constructor, c.members) v)
    (hspan : c.span = s.peek.span.to v.last) (hid : c.id = v.nextId) :
    s.Passes ts { v with nextId := v.nextId + 1 } [.class c] := by
  have hsuper := hsuper.trans_token (Token.kind_ne_eof_of_isPunct hm)
  obtain ⟨order, horder, hmixed⟩ := places_classBody hr hsuper.sound h
  refine .construct_token hs hnext (hname.trans (hsuper.trans horder)) hspan ⟨?_, ?_⟩ trivial
    fun _ hx => Option.some_inj.mp hx ▸ hid
  · exact (hmixed.perm.append_left _).append_left _
  · simp only [Node.rows, List.forall_mem_cons, List.append_assoc]
    refine ⟨?_, ?_, List.forall_mem_nil _⟩
    · exact (hmixed.constructor.append_left _).append_left _
    · exact (hmixed.members.append_left _).append_left _

theorem places_class (hr : r.Placing ts) (declaration : Bool) :
    Places ts (r.class declaration) fun c => [.class c] := by
  intro s c s' hs h
  simp [«class»] at h
  obtain ⟨hword, h⟩ := h
  have hnext := Token.kind_ne_eof_of_isWord hword
  rcases h with ⟨-, name, t, hname, h⟩ | ⟨-, h⟩
  · have hname := places_binding (hs.tail hnext) hname
    rcases h with ⟨-, hm, constructor, members, u, h, rfl, rfl⟩ |
      ⟨hextends, base, u, hbase, hm, constructor, members, v, h, rfl, rfl⟩
    · exact passes_class hr hs hnext hname (.refl hname.sound) hm h rfl rfl
    · have hbehind := Token.kind_ne_eof_of_isWord hextends
      have hbase := hr.leftHandSide (hname.sound.tail hbehind) hbase
      exact passes_class hr hs hnext hname (.token_trans hname.sound hbehind hbase) hm h rfl rfl
  · have htail := hs.tail hnext
    rcases h with ⟨-, hm, constructor, members, u, h, rfl, rfl⟩ |
      ⟨hextends, base, u, hbase, hm, constructor, members, v, h, rfl, rfl⟩
    · exact passes_class hr hs hnext (.refl htail) (.refl htail) hm h rfl rfl
    · have hbehind := Token.kind_ne_eof_of_isWord hextends
      have hbase := hr.leftHandSide (htail.tail hbehind) hbase
      exact passes_class hr hs hnext (.refl htail) (.token_trans htail hbehind hbase) hm h rfl rfl

end Rules

end Stasis.Script
