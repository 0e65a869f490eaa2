import Mathlib
import Stasis.Script.Parser
import Stasis.Proofs.Script.PlacedExpressions

/-!
# Statements in place

* `places_statementRule`: any statement.
* `placing_upTo`: the rules place what they read, however deep it nests.
* `sequence_of_parseScript`: the statements of a script follow one another, each of them in place.
* `numbered_of_parseScript`: no two constructs of a script bear the same number, and none bears a great one.
-/

namespace Stasis.Script

open Parse

variable {ts : List Token} {s s' : Stream} {r : Rules}

namespace Rules

/-! ## Declarations -/

/-- The declarators stand behind the keyword. The span of the whole is not yet known. -/
theorem passes_declaration (hr : r.Placing ts) {decl : VariableDecl} (hs : s.Sound ts)
    (hnext : s.peek.kind ≠ .eof) (h : Reads r.declaration s decl s') :
    s.tail.Passes ts s' (decl.declarators.flatMap Declarator.nodes) ∧ decl.span = s.peek.span := by
  simp [declaration] at h
  obtain ⟨declarators, h, rfl⟩ := h
  refine ⟨?_, rfl⟩
  refine reads_repeat (I := fun acc t => s.tail.Passes ts t (acc.reverse.flatMap Declarator.nodes))
    (Q := fun found t => s.tail.Passes ts t (found.flatMap Declarator.nodes)) ?_
    (.refl (hs.tail hnext)) h
  intro acc t y t' hacc h
  simp at h
  obtain ⟨-, name, u, hname, value, v, hvalue, h⟩ := h
  have hname := places_binding hacc.sound hname
  have hone := hname.trans (places_optionalValue hr hname.sound hvalue)
  have hmore : s.tail.Passes ts v ((⟨name, value⟩ :: acc).reverse.flatMap Declarator.nodes) :=
    hacc.snoc hone
  rcases h with ⟨⟨-, rfl⟩, rfl⟩ | ⟨⟨hm, rfl⟩, rfl⟩
  · rwa [List.reverse_cons] at hmore
  · exact hmore.trans_token (Token.kind_ne_eof_of_isPunct hm)

/-- A declaration up to where it has been read. -/
theorem passes_whole_declaration {decl : VariableDecl} (hs : s.Sound ts)
    (hnext : s.peek.kind ≠ .eof) (hspan : decl.span = s.peek.span)
    (h : s.tail.Passes ts s' (decl.declarators.flatMap Declarator.nodes)) :
    s.Passes ts s' [.declaration { decl with span := decl.span.to s'.last }] := by
  rw [hspan]
  exact .around_token hs hnext h rfl (.refl _) trivial rfl

theorem places_declarationStatement (hr : r.Placing ts) :
    PlacesNext ts r.declarationStatement fun x => [.statement x] := by
  intro s x s' hs hnext h
  simp [declarationStatement] at h
  obtain ⟨decl, t, h, ⟨_, hend⟩, rfl⟩ := h
  obtain ⟨hdecl, hspan⟩ := passes_declaration hr hs hnext h
  have hwhole := passes_whole_declaration hs hnext hspan (hdecl.endStatement hend)
  exact hwhole.around_only rfl rfl rfl trivial rfl

/-! ## Control -/

theorem places_condition (hr : r.Placing ts) : Places ts r.condition fun e => [.expr e] := by
  intro s e s' hs h
  simp [condition] at h
  obtain ⟨hopen, t, h, hclose, rfl⟩ := h
  have hnext := Token.kind_ne_eof_of_isPunct hopen
  have htest := places_expression hr (hs.tail hnext) h
  exact .token_trans hs hnext (htest.trans_token (Token.kind_ne_eof_of_isPunct hclose))

theorem places_ifStatement (hr : r.Placing ts) :
    PlacesNext ts r.ifStatement fun x => [.statement x] := by
  intro s x s' hs hnext h
  simp [ifStatement] at h
  obtain ⟨test, t, htest, consequent, u, hconsequent, h⟩ := h
  have htest := places_condition hr (hs.tail hnext) htest
  have hconsequent := htest.trans (hr.statement htest.sound hconsequent)
  rcases h with ⟨-, rfl, rfl⟩ | ⟨hword, alternate, h, rfl⟩
  · exact .around_token hs hnext hconsequent rfl (.refl _) trivial rfl
  · have helse := hconsequent.trans_token (Token.kind_ne_eof_of_isWord hword)
    have halternate := hr.statement helse.sound h
    exact .around_token hs hnext (helse.trans halternate) rfl (.refl _) trivial rfl

theorem places_whileStatement (hr : r.Placing ts) :
    PlacesNext ts r.whileStatement fun x => [.statement x] := by
  intro s x s' hs hnext h
  simp [whileStatement] at h
  obtain ⟨test, t, htest, body, h, rfl⟩ := h
  have htest := places_condition hr (hs.tail hnext) htest
  have hbody := hr.statement htest.sound h
  exact .around_token hs hnext (htest.trans hbody) rfl (.refl _) trivial rfl

theorem places_forInit (hr : r.Placing ts) : Places ts r.forInit (optionNodes ForInit.node) := by
  intro s start s' hs h
  simp [forInit] at h
  rcases h with ⟨-, rfl, rfl⟩ | ⟨-, ⟨hword, decl, h, rfl⟩ | ⟨-, value, h, rfl⟩⟩
  · exact .refl hs
  · have hnext : s.peek.kind ≠ .eof := by
      rcases hword with (hword | hword) | hword <;> exact Token.kind_ne_eof_of_isWord hword
    obtain ⟨hdecl, hspan⟩ := passes_declaration hr hs hnext h
    exact passes_whole_declaration hs hnext hspan hdecl
  · exact places_expression hr hs h

theorem places_expressionUnless (hr : r.Placing ts) (m : Punctuator) :
    Places ts (r.expressionUnless m) (optionNodes .expr) := by
  intro s value s' hs h
  simp [expressionUnless] at h
  rcases h with ⟨-, rfl, rfl⟩ | ⟨-, e, h, rfl⟩
  · exact .refl hs
  · exact places_expression hr hs h

theorem places_forStatement (hr : r.Placing ts) :
    PlacesNext ts r.forStatement fun x => [.statement x] := by
  intro s x s' hs hnext h
  simp [forStatement] at h
  obtain ⟨hopen, start, t, hstart, -, hfirst, test, u, htest, hsecond, update, v, hupdate, hclose,
    body, w, hbody, rfl, rfl⟩ := h
  have hopen := Stream.Passes.token (hs.tail hnext) (Token.kind_ne_eof_of_isPunct hopen)
  have hstart := (places_forInit hr hopen.sound hstart).trans_token
    (Token.kind_ne_eof_of_isPunct hfirst)
  have htest := (places_expressionUnless hr _ hstart.sound htest).trans_token
    (Token.kind_ne_eof_of_isPunct hsecond)
  have hupdate := (places_expressionUnless hr _ htest.sound hupdate).trans_token
    (Token.kind_ne_eof_of_isPunct hclose)
  have hbody := hr.statement hupdate.sound hbody
  have hwhole := hopen.trans (hstart.trans (htest.trans (hupdate.trans hbody)))
  exact .unnumbered_token hs hnext hwhole rfl (.refl _) trivial rfl

/-! ## Failure -/

theorem places_catchClause (hr : r.Placing ts) :
    Places ts r.catchClause fun c => c.toList.flatMap CatchClause.nodes := by
  intro s c s' hs h
  simp [catchClause] at h
  rcases h with ⟨⟨-, rfl⟩, rfl⟩ | ⟨hword, h⟩
  · exact .refl hs
  · have hnext := Token.kind_ne_eof_of_isWord hword
    have htail := hs.tail hnext
    rcases h with ⟨-, body, t, hbody, rfl, rfl⟩ | ⟨hopen, name, t, ⟨hname, hclose⟩, body, u, hbody,
      rfl, rfl⟩
    · exact .token_freshId hs hnext (places_block hr htail hbody)
    · have hopen := Token.kind_ne_eof_of_isPunct hopen
      have hname := (places_binding (htail.tail hopen) hname).trans_token
        (Token.kind_ne_eof_of_isPunct hclose)
      have hbody := places_block hr hname.sound hbody
      exact .token_freshId hs hnext (.token_trans htail hopen (hname.trans hbody))

theorem places_tryStatement (hr : r.Placing ts) :
    PlacesNext ts r.tryStatement fun x => [.statement x] := by
  intro s x s' hs hnext h
  simp [tryStatement] at h
  obtain ⟨block, t, hblock, handler, u, hhandler, h⟩ := h
  have hblock := places_block hr (hs.tail hnext) hblock
  have hhandler := places_catchClause hr hblock.sound hhandler
  rcases h with ⟨-, -, rfl, rfl⟩ | ⟨hword, finalizer, h, rfl⟩
  · refine .around_token hs hnext (hblock.trans hhandler) rfl (.of_eq ?_) trivial rfl
    simp [Node.children, Statement.nodes, optionNodes]
  · have hmark := hhandler.trans_token (Token.kind_ne_eof_of_isWord hword)
    have hfinalizer := places_block hr hmark.sound h
    exact .around_token hs hnext (hblock.trans (hmark.trans hfinalizer)) rfl (.refl _) trivial rfl

theorem places_returnStatement (hr : r.Placing ts) :
    PlacesNext ts r.returnStatement fun x => [.statement x] := by
  intro s x s' hs hnext h
  simp [returnStatement] at h
  rcases h with ⟨-, ⟨_, hend⟩, rfl⟩ | ⟨-, value, t, h, ⟨_, hend⟩, rfl⟩
  · have htail := (Stream.Passes.refl (hs.tail hnext)).endStatement hend
    exact .around_token hs hnext htail rfl (.refl _) trivial rfl
  · have hvalue := (places_expression hr (hs.tail hnext) h).endStatement hend
    exact .around_token hs hnext hvalue rfl (.refl _) trivial rfl

theorem places_throwStatement (hr : r.Placing ts) :
    PlacesNext ts r.throwStatement fun x => [.statement x] := by
  intro s x s' hs hnext h
  simp [throwStatement] at h
  obtain ⟨-, value, t, h, ⟨_, hend⟩, rfl⟩ := h
  have hvalue := (places_expression hr (hs.tail hnext) h).endStatement hend
  exact .around_token hs hnext hvalue rfl (.refl _) trivial rfl

/-! ## Any statement -/

theorem places_expressionStatement (hr : r.Placing ts) :
    Places ts r.expressionStatement fun x => [.statement x] := by
  intro s x s' hs h
  simp [expressionStatement] at h
  obtain ⟨value, t, h, ⟨_, hend⟩, rfl⟩ := h
  have hvalue := (places_expression hr hs h).endStatement hend
  exact .around_first hvalue rfl (.refl _) trivial rfl

/-- A word with the end of a statement behind it. -/
theorem passes_lone_word {x : Statement} {u : Unit} (hs : s.Sound ts) (hnext : s.peek.kind ≠ .eof)
    (hend : Reads endStatement s.tail u s') (hspan : x.span = s.peek.span.to s'.last)
    (hnodes : x.nodes = []) : s.Passes ts s' [.statement x] :=
  .around_token hs hnext ((Stream.Passes.refl (hs.tail hnext)).endStatement hend) hspan
    (.of_eq hnodes.symm) trivial rfl

theorem places_wordStatement (hr : r.Placing ts) (word : String) :
    PlacesNext ts (r.wordStatement word) fun x => [.statement x] := by
  intro s x s' hs hnext h
  simp only [wordStatement, reads_bind_iff, reads_peekAt_iff] at h
  obtain ⟨next, _, ⟨-, rfl⟩, h⟩ := h
  split at h
  case h_1 | h_2 => exact places_declarationStatement hr hs hnext h
  case h_3 =>
    rcases reads_ite_iff.mp h with ⟨-, h⟩ | ⟨-, h⟩
    · exact places_declarationStatement hr hs hnext h
    · exact places_expressionStatement hr hs h
  case h_4 =>
    simp at h
    obtain ⟨f, h, rfl⟩ := h
    exact (places_function hr _ hs h).around_only rfl rfl rfl trivial rfl
  case h_5 =>
    rcases reads_ite_iff.mp h with ⟨-, h⟩ | ⟨-, h⟩
    · simp at h
    · exact places_expressionStatement hr hs h
  case h_6 =>
    simp at h
    obtain ⟨c, h, rfl⟩ := h
    exact (places_class hr _ hs h).around_only rfl rfl rfl trivial rfl
  case h_7 => exact places_ifStatement hr hs hnext h
  case h_8 => exact places_whileStatement hr hs hnext h
  case h_9 => exact places_forStatement hr hs hnext h
  case h_10 => exact places_returnStatement hr hs hnext h
  case h_11 => exact places_throwStatement hr hs hnext h
  case h_12 => exact places_tryStatement hr hs hnext h
  case h_13 | h_14 =>
    simp at h
    obtain ⟨⟨_, hend⟩, rfl⟩ := h
    exact passes_lone_word hs hnext hend rfl rfl
  all_goals first | exact places_expressionStatement hr hs h | simp at h

theorem places_statementRule (hr : r.Placing ts) :
    Places ts r.statementRule fun x => [.statement x] := by
  intro s x s' hs h
  simp only [statementRule, reads_bind_iff, reads_peek_iff] at h
  obtain ⟨_, _, ⟨rfl, rfl⟩, h⟩ := h
  split at h
  · simp at h
    obtain ⟨b, h, rfl⟩ := h
    exact (places_block hr hs h).around_only rfl rfl rfl trivial rfl
  · next hkind =>
    have hnext : s.peek.kind ≠ .eof := by simp [hkind]
    simp at h
    obtain ⟨rfl, rfl⟩ := h
    exact .around_token hs hnext (.refl (hs.tail hnext)) rfl (.refl _) trivial rfl
  · next hkind => exact places_wordStatement hr _ hs (by simp [hkind]) h
  · exact places_expressionStatement hr hs h

end Rules

/-! ## Whole scripts -/

theorem places_unexpected {α : Type} {nodes : α → List Node} : Places ts unexpected nodes :=
  fun _ _ _ _ h => absurd h not_reads_unexpected

/-- **The rules of the grammar place what they read.** At depth zero they read nothing. -/
theorem placing_upTo (ts : List Token) (n : ℕ) : (Rules.upTo n).Placing ts := by
  induction n with
  | zero =>
    exact ⟨places_unexpected, places_unexpected, places_unexpected, fun _ => places_unexpected,
      places_unexpected, fun _ _ _ _ _ h => absurd h not_reads_unexpected⟩
  | succ n ih =>
    exact ⟨Rules.places_statementRule ih, Rules.places_assignmentRule ih, Rules.places_unaryRule ih,
      Rules.places_binaryRule ih, Rules.places_leftHandSideRule ih, Rules.places_newRule ih⟩

/-- The statements of a script. -/
theorem Rules.places_program (hr : r.Placing ts) :
    Places ts r.program fun p => p.body.map .statement := by
  intro s p s' hs h
  simp [program] at h
  obtain ⟨body, h, rfl⟩ := h
  refine reads_repeat (I := fun acc t => s.Passes ts t (acc.reverse.flatMap fun x => [.statement x]))
    (Q := fun body t => s.Passes ts t (body.map .statement)) ?_ (.refl hs) h
  intro acc t y t' hacc h
  simp at h
  rcases h with ⟨-, rfl, rfl⟩ | ⟨-, x, h, rfl⟩
  · rwa [← List.map_eq_flatMap] at hacc
  · exact hacc.snoc (hr.statement hacc.sound h)

/-- All tokens of a script are left before the first is taken. -/
theorem sound_of_located {source : List Char} {stop : Token} (h : Located source ts)
    (heof : stop.kind = .eof) : Stream.Sound ts ⟨ts, stop, .none, 0⟩ where
  split := ⟨[], rfl, nofun⟩
  left := fun _ _ => Nat.zero_le _
  eof := heof
  last := .inl rfl
  start_lt_stop := fun t ht => (h.located t ht).start_lt_stop
  ordered := h.ordered

/-- A script has been read from its tokens. -/
theorem reads_of_parseScript {source label : String} {p : Program}
    (h : parseScript source label = .ok p) : ∃ ts stop s, lex source = .ok (ts, stop) ∧
      Reads (Rules.upTo (2 * ts.length + 2)).program ⟨ts, stop, .none, 0⟩ p s := by
  unfold parseScript parseWith at h
  cases hlex : lex source with
  | error e => simp [hlex, bind, Except.bind, Except.mapError] at h
  | ok found =>
    obtain ⟨ts, stop⟩ := found
    simp only [hlex, bind, Except.bind] at h
    cases hrun : (Rules.upTo (2 * ts.length + 2)).program.run ⟨ts, stop, .none, 0⟩ with
    | error e => simp [hrun, Except.mapError] at h
    | ok answer =>
      obtain ⟨q, s⟩ := answer
      rw [hrun] at h
      obtain rfl : q = p := Except.ok.inj h
      exact ⟨ts, stop, s, rfl, hrun⟩

/-- **The statements of a script follow one another**, each of them in place. -/
theorem sequence_of_parseScript {source label : String} {p : Program}
    (h : parseScript source label = .ok p) : ∃ ts stop, lex source = .ok (ts, stop) ∧
      Sequence ts 0 (Text.byteLength source.toList) (p.body.map .statement) := by
  obtain ⟨ts, stop, s, hlex, hreads⟩ := reads_of_parseScript h
  obtain ⟨hts, heof⟩ := located_of_lex hlex
  have hpasses := Rules.places_program (placing_upTo ts _) (sound_of_located hts heof) hreads
  refine ⟨ts, stop, hlex, hpasses.nodes.mono (Nat.zero_le _) ?_⟩
  -- the last token ends where the script does or before
  rcases hpasses.sound.last with hzero | ⟨t, ht, hstop⟩
  · omega
  · exact hstop ▸ (hts.located t ht).isBoundary_stop.le

/-- **The constructs of a script bear numbers of their own**, which are below its length in bytes. So a
number fits any word that the length of the script fits. -/
theorem numbered_of_parseScript {source label : String} {p : Program}
    (h : parseScript source label = .ok p) :
    Numbered 0 (Text.byteLength source.toList) (p.body.map .statement) := by
  obtain ⟨ts, stop, s, hlex, hreads⟩ := reads_of_parseScript h
  obtain ⟨hts, heof⟩ := located_of_lex hlex
  have hpasses := Rules.places_program (placing_upTo ts _) (sound_of_located hts heof) hreads
  refine hpasses.numbers.mono ?_
  -- no more numbers are given away than there are tokens
  have hwithin := hpasses.within
  have hlength := hts.length_le
  simp only [Stream.budget] at hwithin
  omega

end Stasis.Script
