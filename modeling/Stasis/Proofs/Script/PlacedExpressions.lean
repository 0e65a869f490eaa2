import Mathlib
import Stasis.Script.Parser
import Stasis.Proofs.Script.PlacedDefinitions

/-!
# Expressions in place

* `places_primaryRule`, `places_leftHandSideRule`: operands with their members and calls.
* `places_binaryRule`: operands joined by operators.
* `places_assignmentRule`: everything but the comma, which is `places_expression`.
-/

namespace Stasis.Script

open Parse

variable {ts : List Token} {s s' : Stream} {r : Rules}

/-- A token further on is one behind the next. -/
theorem Stream.peekAt_succ (s : Stream) (n : ℕ) : s.peekAt (n + 1) = s.tail.peekAt n := by
  cases h : s.rest <;> simp [Stream.peekAt, Stream.tail, h]

namespace Rules

/-! ## Lists of expressions -/

/-- The items of a sequence, the first of which has been read before. -/
theorem places_expression (hr : r.Placing ts) : Places ts r.expression fun e => [.expr e] := by
  intro s e s' hs h
  simp [expression] at h
  obtain ⟨first, t, hfirst, h⟩ := h
  have hfirst := hr.assignment hs hfirst
  rcases h with ⟨-, items, h, rfl⟩ | ⟨-, rfl, rfl⟩
  · obtain ⟨⟨more, rfl⟩, hitems⟩ := reads_repeat
      (I := fun acc t => (∃ more, acc.reverse = first :: more) ∧
        s.Passes ts t (acc.reverse.flatMap fun e => [.expr e]))
      (Q := fun items t => (∃ more, items = first :: more) ∧ s.Passes ts t (items.map .expr))
      (by
        rintro acc t y t' ⟨⟨more, hmore⟩, hacc⟩ h
        simp at h
        rcases h with ⟨⟨-, rfl⟩, rfl⟩ | ⟨hm, item, h, rfl⟩
        · exact ⟨⟨more, hmore⟩, by rwa [← List.map_eq_flatMap] at hacc⟩
        · have hnext := Token.kind_ne_eof_of_isPunct hm
          have hitem := hr.assignment (hacc.sound.tail hnext) h
          exact ⟨⟨more ++ [item], by rw [List.reverse_cons, hmore, List.cons_append]⟩,
            hacc.snoc (.token_trans hacc.sound hnext hitem)⟩)
      ⟨⟨[], rfl⟩, hfirst⟩ h
    exact .around_first hitems rfl (.refl _) trivial rfl
  · exact hfirst

theorem places_element (hr : r.Placing ts) : Places ts r.element fun e => [e.node] := by
  intro s e s' hs h
  simp [element] at h
  rcases h with ⟨-, value, h, rfl⟩ | ⟨hm, value, h, rfl⟩
  · exact hr.assignment hs h
  · have hnext := Token.kind_ne_eof_of_isPunct hm
    exact .token_trans hs hnext (hr.assignment (hs.tail hnext) h)

theorem places_arguments (hr : r.Placing ts) :
    Places ts r.arguments fun items => items.map Element.node := by
  intro s items s' hs h
  simp [arguments] at h
  obtain ⟨hopen, found, t, h, ⟨hclose, rfl⟩, rfl⟩ := h
  have hnext := Token.kind_ne_eof_of_isPunct hopen
  have hfound : s.tail.Passes ts t (found.reverse.flatMap fun e => [e.node]) := by
    refine reads_repeat
      (I := fun acc t => s.tail.Passes ts t (acc.reverse.flatMap fun e => [e.node]))
      (Q := fun acc t => s.tail.Passes ts t (acc.reverse.flatMap fun e => [e.node])) ?_
      (.refl (hs.tail hnext)) h
    intro acc t y t' hacc h
    simp at h
    rcases h with ⟨-, rfl, rfl⟩ | ⟨-, item, u, hitem, ⟨⟨-, rfl⟩, rfl⟩ | ⟨⟨hm, rfl⟩, rfl⟩⟩
    · exact hacc
    · exact hacc.snoc (places_element hr hacc.sound hitem)
    · exact (hacc.snoc (places_element hr hacc.sound hitem)).trans_token
        (Token.kind_ne_eof_of_isPunct hm)
  rw [← List.map_eq_flatMap] at hfound
  exact .token_trans hs hnext (hfound.trans_token (Token.kind_ne_eof_of_isPunct hclose))

/-! ## Members -/

theorem places_access (hr : r.Placing ts) : Places ts r.access Access.nodes := by
  intro s access s' hs h
  simp [Rules.access] at h
  rcases h with ⟨-, hm, key, t, hkey, ⟨hclose, rfl⟩, rfl⟩ | ⟨hm, h⟩
  · have hnext := Token.kind_ne_eof_of_isPunct hm
    have hkey := places_expression hr (hs.tail hnext) hkey
    exact .token_trans hs hnext (hkey.trans_token (Token.kind_ne_eof_of_isPunct hclose))
  · have hnext := Token.kind_ne_eof_of_isPunct hm
    refine .token_trans hs hnext ?_
    split at h
    · next name hname =>
      have hname : s.tail.peek.kind ≠ .eof := by simp [hname]
      simp at h
      obtain ⟨rfl, rfl⟩ := h
      have htail := hs.tail hnext
      exact .around_token htail hname (.refl (htail.tail hname)) rfl (.refl _) trivial rfl
    all_goals simp at h

theorem passes_memberOf (hr : r.Placing ts) {object : Expr} {e : Expr} {t : Stream}
    (hobject : s.Passes ts t [.expr object]) (h : Reads (r.memberOf object) t e s') :
    s.Passes ts s' [.expr e] := by
  simp [memberOf] at h
  obtain ⟨access, h, rfl⟩ := h
  exact .around_first (hobject.trans (places_access hr hobject.sound h)) rfl (.refl _) trivial rfl

/-! ## Literals -/

theorem places_arrayLiteral (hr : r.Placing ts) :
    PlacesNext ts r.arrayLiteral fun e => [.expr e] := by
  intro s e s' hs hnext h
  simp [arrayLiteral] at h
  obtain ⟨elements, h, rfl⟩ := h
  have helements : s.tail.Passes ts s' (elements.flatMap (optionNodes Element.node)) := by
    refine reads_repeat
      (I := fun acc t => s.tail.Passes ts t (acc.reverse.flatMap (optionNodes Element.node)))
      (Q := fun found t => s.tail.Passes ts t (found.flatMap (optionNodes Element.node))) ?_
      (.refl (hs.tail hnext)) h
    intro acc t y t' hacc h
    simp at h
    rcases h with ⟨hm, rfl, rfl⟩ | ⟨-, ⟨-, item, u, hitem, h⟩ | ⟨⟨hm, rfl⟩, rfl⟩⟩
    · exact hacc.trans_token (Token.kind_ne_eof_of_isPunct hm)
    · have hitem := hacc.snoc (a := some item) (places_element hr hacc.sound hitem)
      rcases h with ⟨-, ⟨hm, rfl⟩, rfl⟩ | ⟨-, rfl, rfl⟩
      · exact hitem.trans_token (Token.kind_ne_eof_of_isPunct hm)
      · exact hitem
    -- a hole
    · exact (hacc.snoc (a := none) (.refl hacc.sound)).trans_token (Token.kind_ne_eof_of_isPunct hm)
  exact .around_token hs hnext helements rfl (.refl _) trivial rfl

/-- A key that is a word is one token. -/
theorem peek_of_reads_ident {name : String} (h : Reads r.propertyName s (.ident name) s') :
    s.peek.kind = .ident name ∧ s.tail = s' := by
  simp only [propertyName, reads_bind_iff, reads_peek_iff] at h
  obtain ⟨_, _, ⟨rfl, rfl⟩, h⟩ := h
  split at h
  case h_1 hkind =>
    simp at h
    obtain ⟨rfl, rfl⟩ := h
    exact ⟨hkind, rfl⟩
  all_goals simp at h

/-- Without `get` or `set` nothing is taken. -/
theorem eq_of_reads_none (h : Reads accessorKind s none s') : s = s' := by
  simp [accessorKind] at h
  exact h.2.2

/-- A key and what stands behind it are a property, behind a word that leaves no node. -/
theorem passes_property {t u : Stream} {p : Property} {key : PropertyName} {nodes : List Node}
    (hs : s.Sound ts) (hstart : s.Passes ts t [])
    (hkey : t.Takes ts u key.nodes) (hvalue : u.Passes ts s' nodes)
    (hnodes : p.nodes = key.nodes ++ nodes) (hspan : p.span = s.peek.span.to s'.last)
    (hplain : (Node.property p).IsPlain) : s.Passes ts s' [.property p] :=
  ((hkey.trans hvalue).behind hstart).around_peek hs hspan (.of_eq hnodes.symm) hplain rfl

/-- A node without children in the place of the next token. -/
theorem passes_leaf {e : Expr} (hs : s.Sound ts) (hnext : s.peek.kind ≠ .eof)
    (hspan : e.span = s.peek.span) (hnodes : e.nodes = []) : s.Passes ts s.tail [.expr e] :=
  .around_token hs hnext (.refl (hs.tail hnext)) hspan (.of_eq hnodes.symm) trivial rfl

/-- Such a node with a number. -/
theorem passes_name {e : Expr} (hs : s.Sound ts) (hnext : s.peek.kind ≠ .eof)
    (hspan : e.span = s.peek.span) (hnodes : e.nodes = []) :
    s.Passes ts { s.tail with nextId := s.tail.nextId + 1 } [.expr e] :=
  .unnumbered_token hs hnext (.refl (hs.tail hnext)) hspan (.of_eq hnodes.symm) trivial rfl

/-- A property that is a lone word has one token, which its value has too. -/
theorem passes_shorthand {t : Stream} {key : PropertyName} {p : Property} (hs : s.Sound ts)
    (hkey : Reads r.propertyName s key t) (h : Reads (shorthand key s.peek.span) t p s') :
    s.Passes ts s' [.property p] := by
  unfold shorthand at h
  split at h
  · next name =>
    obtain ⟨hkind, rfl⟩ := peek_of_reads_ident hkey
    have hnext : s.peek.kind ≠ .eof := by simp [hkind]
    simp at h
    obtain ⟨-, rfl, rfl⟩ := h
    have hvalue := passes_name (e := .ident name s.tail.nextId s.peek.span) hs hnext rfl rfl
    exact hvalue.around_only rfl rfl rfl rfl rfl
  · simp at h

theorem places_property (hr : r.Placing ts) : Places ts r.property fun p => [.property p] := by
  intro s p s' hs h
  simp [Rules.property] at h
  rcases h with ⟨-, accessor, t, hstart, h⟩ | ⟨hm, value, h, rfl⟩
  · have hword := places_accessorKind hs hstart
    split at h
    · simp at h
      obtain ⟨key, u, hkey, f, h, rfl⟩ := h
      have hkey := takes_propertyName hr hword.sound hkey
      exact passes_property hs hword hkey (places_method hr _ hkey.sound h) rfl rfl trivial
    · simp at h
      obtain ⟨key, u, hkey, f, h, rfl⟩ := h
      have hkey := takes_propertyName hr hword.sound hkey
      exact passes_property hs hword hkey (places_method hr _ hkey.sound h) rfl rfl trivial
    · obtain rfl := eq_of_reads_none hstart
      simp at h
      obtain ⟨-, key, u, hkey, h⟩ := h
      have hname := hkey
      have hkey := takes_propertyName hr hs hkey
      rcases h with ⟨-, f, h, rfl⟩ | ⟨-, ⟨-, h⟩ | ⟨hm, value, h, rfl⟩⟩
      · exact passes_property hs hword hkey (places_method hr _ hkey.sound h) rfl rfl trivial
      · exact passes_shorthand hs hname h
      · have hnext := Token.kind_ne_eof_of_isPunct hm
        have hvalue := hr.assignment (hkey.sound.tail hnext) h
        exact passes_property hs hword hkey (.token_trans hkey.sound hnext hvalue) rfl rfl
          trivial
  · have hnext := Token.kind_ne_eof_of_isPunct hm
    exact .around_token hs hnext (hr.assignment (hs.tail hnext) h) rfl (.refl _) trivial rfl

theorem places_objectLiteral (hr : r.Placing ts) :
    PlacesNext ts r.objectLiteral fun e => [.expr e] := by
  intro s e s' hs hnext h
  simp [objectLiteral] at h
  obtain ⟨properties, h, rfl⟩ := h
  have hproperties : s.tail.Passes ts s' (properties.map .property) := by
    refine reads_repeat
      (I := fun acc t => s.tail.Passes ts t (acc.reverse.flatMap fun p => [.property p]))
      (Q := fun found t => s.tail.Passes ts t (found.map .property)) ?_
      (.refl (hs.tail hnext)) h
    intro acc t y t' hacc h
    simp at h
    rcases h with ⟨hm, rfl, rfl⟩ | ⟨-, item, u, hitem, h⟩
    · rw [← List.map_eq_flatMap] at hacc
      exact hacc.trans_token (Token.kind_ne_eof_of_isPunct hm)
    · have hitem := hacc.snoc (places_property hr hacc.sound hitem)
      rcases h with ⟨-, ⟨hm, rfl⟩, rfl⟩ | ⟨-, rfl, rfl⟩
      · exact hitem.trans_token (Token.kind_ne_eof_of_isPunct hm)
      · exact hitem
  exact .around_token hs hnext hproperties rfl (.refl _) trivial rfl

/-! ## Operands -/

/-- A look-up that is next has four tokens. -/
theorem passes_scopeLookup {t : Stream} {name : String} (hs : s.Sound ts)
    (hnext : s.peek.kind ≠ .eof) (h : Reads scopeLookup? s (some name) t) :
    s = t ∧ s.Passes ts s.tail.tail.tail.tail
      [.expr (.scopeLookup name (s.peek.span.to s.tail.tail.tail.tail.last))] := by
  simp [scopeLookup?] at h
  obtain ⟨⟨hopen, hclose⟩, h⟩ := h
  split at h
  · next hkind =>
    simp at h
    rw [Stream.peekAt_succ] at hopen hclose hkind
    rw [Stream.peekAt_succ] at hclose hkind
    rw [Stream.peekAt_succ] at hclose
    have hfirst := Stream.Passes.refl (hs.tail hnext)
    have hsecond := hfirst.trans_token (Token.kind_ne_eof_of_isPunct hopen)
    have hthird := hsecond.trans_token (by simp [Stream.peek, hkind])
    have hfourth := hthird.trans_token (Token.kind_ne_eof_of_isPunct hclose)
    exact ⟨h.2, .around_token hs hnext hfourth rfl (.refl _) trivial rfl⟩
  · simp at h

/-- Without a look-up nothing is taken. -/
theorem eq_of_reads_scopeLookup {t : Stream} (h : Reads scopeLookup? s none t) : s = t := by
  simp [scopeLookup?] at h
  rcases h with ⟨-, h⟩ | ⟨-, h⟩
  · split at h <;> simp at h
    exact h
  · exact h

theorem passes_wordRule (hr : r.Placing ts) {word : String} {e : Expr} (hs : s.Sound ts)
    (hword : s.peek.kind = .ident word) (h : Reads (r.wordRule word s.peek.span) s e s') :
    s.Passes ts s' [.expr e] := by
  have hnext : s.peek.kind ≠ .eof := by simp [hword]
  simp [wordRule] at h
  rcases h with ⟨-, rfl, rfl⟩ | ⟨-, ⟨-, rfl, rfl⟩ | ⟨-, ⟨-, rfl, rfl⟩ | ⟨-, ⟨-, f, h, rfl⟩ |
    ⟨-, ⟨-, c, h, rfl⟩ | ⟨-, -, ⟨-, found, t, hfound, h⟩ | ⟨-, rfl, rfl⟩⟩⟩⟩⟩⟩
  · exact passes_leaf hs hnext rfl rfl
  · exact passes_leaf hs hnext rfl rfl
  · exact passes_leaf hs hnext rfl rfl
  · exact (places_function hr _ hs h).around_only rfl rfl rfl trivial rfl
  · exact (places_class hr _ hs h).around_only rfl rfl rfl trivial rfl
  · cases found with
    | some name =>
      obtain ⟨rfl, hlookup⟩ := passes_scopeLookup hs hnext hfound
      simp at h
      obtain ⟨rfl, rfl⟩ := h
      exact hlookup
    | none =>
      obtain rfl := eq_of_reads_scopeLookup hfound
      simp at h
      obtain ⟨rfl, rfl⟩ := h
      exact passes_name hs hnext rfl rfl
  · exact passes_name hs hnext rfl rfl

theorem places_primaryRule (hr : r.Placing ts) : Places ts r.primaryRule fun e => [.expr e] := by
  intro s e s' hs h
  simp only [primaryRule, reads_bind_iff, reads_peek_iff] at h
  obtain ⟨_, _, ⟨rfl, rfl⟩, h⟩ := h
  split at h
  case h_1 hkind | h_2 hkind | h_3 hkind =>
    have hnext : s.peek.kind ≠ .eof := by simp [hkind]
    simp at h
    obtain ⟨rfl, rfl⟩ := h
    exact passes_leaf hs hnext rfl rfl
  case h_4 hkind =>
    have hnext : s.peek.kind ≠ .eof := by simp [hkind]
    simp at h
    obtain ⟨t, h, hm, rfl⟩ := h
    have hinner := places_expression hr (hs.tail hnext) h
    exact .token_trans hs hnext (hinner.trans_token (Token.kind_ne_eof_of_isPunct hm))
  case h_5 hkind => exact places_arrayLiteral hr hs (by simp [hkind]) h
  case h_6 hkind => exact places_objectLiteral hr hs (by simp [hkind]) h
  case h_7 word hkind => exact passes_wordRule hr hs hkind h
  case h_8 => simp at h

theorem places_newRule (hr : r.Placing ts) : PlacesNext ts r.newRule fun e => [.expr e] := by
  intro s e s' hs hnext h
  simp [newRule] at h
  replace h := reads_join h
  obtain ⟨first, t, hfirst, callee, u, hcallee, h⟩ := h
  have hfirst : s.tail.Passes ts t [.expr first] := by
    rcases hfirst with ⟨hword, hfirst⟩ | ⟨-, hfirst⟩
    · exact hr.new (hs.tail hnext) (Token.kind_ne_eof_of_isWord hword) hfirst
    · exact places_primaryRule hr (hs.tail hnext) hfirst
  have hcallee : s.tail.Passes ts u [.expr callee] := by
    refine reads_repeat (I := fun e t => s.tail.Passes ts t [.expr e])
      (Q := fun e t => s.tail.Passes ts t [.expr e]) ?_ hfirst hcallee
    intro x t y t' hx h
    simp [isAccess] at h
    rcases h with ⟨-, next, h, rfl⟩ | ⟨-, rfl, rfl⟩
    · exact passes_memberOf hr hx h
    · exact hx
  rcases h with ⟨-, arguments, h, rfl⟩ | ⟨-, rfl, rfl⟩
  · have harguments := places_arguments hr hcallee.sound h
    exact .around_token hs hnext (hcallee.trans harguments) rfl (.refl _) trivial rfl
  · exact .around_token hs hnext hcallee rfl (.refl _) trivial rfl

theorem places_superRule (hr : r.Placing ts) : PlacesNext ts (superRule r) fun e => [.expr e] := by
  intro s e s' hs hnext h
  simp [superRule] at h
  rcases h with ⟨-, arguments, h, rfl⟩ | ⟨-, access, h, rfl⟩
  · exact .around_token hs hnext (places_arguments hr (hs.tail hnext) h) rfl (.refl _) trivial rfl
  · exact .around_token hs hnext (places_access hr (hs.tail hnext) h) rfl (.refl _) trivial rfl

theorem places_leftHandSideRule (hr : r.Placing ts) :
    Places ts r.leftHandSideRule fun e => [.expr e] := by
  intro s e s' hs h
  simp [leftHandSideRule] at h
  replace h := reads_join (h.imp_right (.imp_right reads_join))
  obtain ⟨first, t, hfirst, h⟩ := h
  have hfirst : s.Passes ts t [.expr first] := by
    rcases hfirst with ⟨hword, hfirst⟩ | ⟨-, ⟨hword, hfirst⟩ | ⟨-, hfirst⟩⟩
    · exact places_newRule hr hs (Token.kind_ne_eof_of_isWord hword) hfirst
    · exact places_superRule hr hs (Token.kind_ne_eof_of_isWord hword) hfirst
    · exact places_primaryRule hr hs hfirst
  refine reads_repeat (I := fun e t => s.Passes ts t [.expr e])
    (Q := fun e t => s.Passes ts t [.expr e]) ?_ hfirst h
  intro x t y t' hx h
  simp [isAccess] at h
  rcases h with ⟨-, next, h, rfl⟩ | ⟨-, ⟨-, arguments, h, rfl⟩ | ⟨-, rfl, rfl⟩⟩
  · exact passes_memberOf hr hx h
  · exact .around_first (hx.trans (places_arguments hr hx.sound h)) rfl (.refl _) trivial rfl
  · exact hx

/-! ## Operators -/

theorem kind_ne_eof_of_updateOperator {t : Token} {op : UpdateOp}
    (h : updateOperator? t = some op) : t.kind ≠ .eof := by
  intro heof
  simp [updateOperator?, heof] at h

theorem kind_ne_eof_of_unaryOperator {t : Token} {op : UnaryOp}
    (h : unaryOperator? t = some op) : t.kind ≠ .eof := by
  intro heof
  simp [unaryOperator?, heof] at h

theorem kind_ne_eof_of_binaryOperator {t : Token} {op : ℕ × InfixOp}
    (h : binaryOperator? t = some op) : t.kind ≠ .eof := by
  intro heof
  simp [binaryOperator?, heof] at h

theorem kind_ne_eof_of_assignOperator {t : Token} {op : AssignOp}
    (h : assignOperator? t = some op) : t.kind ≠ .eof := by
  intro heof
  simp [assignOperator?, heof] at h

theorem places_steppedRule (hr : r.Placing ts) :
    Places ts r.steppedRule fun e => [.expr e] := by
  intro s e s' hs h
  simp only [steppedRule, reads_bind_iff, reads_peek_iff] at h
  obtain ⟨target, t, htarget, _, _, ⟨rfl, rfl⟩, h⟩ := h
  have htarget := places_leftHandSideRule hr hs htarget
  split at h
  · next hop =>
    simp at h
    rcases h with ⟨-, rfl, rfl⟩ | ⟨-, -, rfl, rfl⟩
    · exact htarget
    · have hbehind := htarget.trans_token (kind_ne_eof_of_updateOperator hop)
      exact .around_first hbehind rfl (.refl _) trivial rfl
  · obtain ⟨rfl, rfl⟩ := reads_pure_iff.mp h
    exact htarget

theorem places_unaryRule (hr : r.Placing ts) : Places ts r.unaryRule fun e => [.expr e] := by
  intro s e s' hs h
  simp only [unaryRule, reads_bind_iff, reads_peek_iff] at h
  obtain ⟨_, _, ⟨rfl, rfl⟩, h⟩ := h
  split at h
  · next hop =>
    have hnext := kind_ne_eof_of_unaryOperator hop
    simp at h
    obtain ⟨operand, h, rfl⟩ := h
    have hoperand := hr.unary (hs.tail hnext) h
    exact .token_to_last [] hs hnext hoperand rfl rfl trivial rfl
  · split at h
    · next hop =>
      have hnext := kind_ne_eof_of_updateOperator hop
      simp at h
      obtain ⟨target, h, -, rfl⟩ := h
      have htarget := hr.unary (hs.tail hnext) h
      exact .token_to_last [] hs hnext htarget rfl rfl trivial rfl
    · exact places_steppedRule hr hs h

/-- An operator stands between its operands. -/
theorem passes_infix {left right : Expr} {op : InfixOp}
    (h : s.Passes ts s' [.expr left, .expr right]) : s.Passes ts s' [.expr (op.apply left right)] := by
  cases op <;> exact .first_to_last [] h rfl rfl trivial rfl

theorem places_binaryRule (hr : r.Placing ts) (least : ℕ) :
    Places ts (r.binaryRule least) fun e => [.expr e] := by
  intro s e s' hs h
  simp only [binaryRule, reads_bind_iff] at h
  obtain ⟨first, t, hfirst, h⟩ := h
  refine reads_repeat (I := fun e t => s.Passes ts t [.expr e])
    (Q := fun e t => s.Passes ts t [.expr e]) ?_ (places_unaryRule hr hs hfirst) h
  intro left t y t' hleft h
  simp only [reads_bind_iff, reads_peek_iff] at h
  obtain ⟨_, _, ⟨rfl, rfl⟩, h⟩ := h
  split at h
  · obtain ⟨rfl, rfl⟩ := reads_pure_iff.mp h
    exact hleft
  · next hop =>
    have hnext := kind_ne_eof_of_binaryOperator hop
    simp at h
    rcases h with ⟨-, rfl, rfl⟩ | ⟨-, right, h, rfl⟩
    · exact hleft
    · have hright := hr.binary _ (hleft.sound.tail hnext) h
      exact passes_infix (hleft.trans (.token_trans hleft.sound hnext hright))

theorem places_conditionalRule (hr : r.Placing ts) :
    Places ts r.conditionalRule fun e => [.expr e] := by
  intro s e s' hs h
  simp [conditionalRule] at h
  obtain ⟨test, t, htest, h⟩ := h
  have htest := places_binaryRule hr 0 hs htest
  rcases h with ⟨⟨-, rfl⟩, rfl⟩ | ⟨hm, consequent, u, hconsequent, hcolon, alternate, h, rfl⟩
  · exact htest
  · have hmark := htest.trans_token (Token.kind_ne_eof_of_isPunct hm)
    have hconsequent := (hr.assignment hmark.sound hconsequent).trans_token
      (Token.kind_ne_eof_of_isPunct hcolon)
    have halternate := hr.assignment hconsequent.sound h
    exact .first_to_last [.expr consequent] (hmark.trans (hconsequent.trans halternate))
      rfl rfl trivial rfl

theorem places_assignmentRule (hr : r.Placing ts) :
    Places ts r.assignmentRule fun e => [.expr e] := by
  intro s e s' hs h
  simp [assignmentRule] at h
  rcases h with ⟨-, h⟩ | ⟨-, -, target, t, htarget, h⟩
  · exact places_arrow hr hs h
  · have htarget := places_conditionalRule hr hs htarget
    split at h
    · obtain ⟨rfl, rfl⟩ := reads_pure_iff.mp h
      exact htarget
    · next hop =>
      have hbehind := htarget.trans_token (kind_ne_eof_of_assignOperator hop)
      simp at h
      obtain ⟨-, value, h, rfl⟩ := h
      have hvalue := hr.assignment hbehind.sound h
      exact .first_to_last [] (hbehind.trans hvalue) rfl rfl trivial rfl

end Rules

end Stasis.Script
