import Mathlib
import Stasis.HostPath
import Stasis.Resume
import Stasis.Proofs.Script.Lexemes
import Stasis.Proofs.Script.Operands

/-!
# Composed paths are readable

The path of an object is composed as a text, one step after another, and read as an expression when the
object is looked for. Both agree: what is read is made of the same steps.

* `PathStep.Leads`: the expression of what is one step behind an expression.
* `Script.Expr.IsPath`: the expression that some steps from a root denote.
* `isAccessPath_of_isPath`: such an expression only reads members and makes reflective calls.
* `tokenizes_path`, `isReadAs_path`: the text of a path has the tokens of its steps, and these are read as
  its expression.
* `parseExpression_path`: every path is accepted and read as the steps that it was composed of.
-/

namespace Stasis

open Script

variable {root : String} {steps : List PathStep} {step : PathStep} {e e' : Expr}

/-! ## What a path denotes -/

/-- The expression of what is one step behind the expression `e`. -/
inductive PathStep.Leads (e : Expr) : PathStep → Expr → Prop
  | property {key : String} {keyPlace place : Span} :
    Leads e (.property key) (.member e (.computed (.text key keyPlace)) place)
  | symbolProperty {key : String} {id : NodeId} {p₁ p₂ p₃ p₄ p₅ place : Span} :
    Leads e (.symbolProperty key) (.member e (.computed
      (.call (.member (.ident "Symbol" id p₁) (.named "for" p₂) p₃) [⟨false, .text key p₄⟩] p₅)) place)
  | getter {key : String} {id : NodeId} {p₁ p₂ p₃ p₄ p₅ p₆ place : Span} :
    Leads e (.getter key) (.member
      (.call (.member (.ident "Object" id p₁) (.named "getOwnPropertyDescriptor" p₂) p₃)
        [⟨false, e⟩, ⟨false, .text key p₄⟩] p₅) (.named "get" p₆) place)
  | setter {key : String} {id : NodeId} {p₁ p₂ p₃ p₄ p₅ p₆ place : Span} :
    Leads e (.setter key) (.member
      (.call (.member (.ident "Object" id p₁) (.named "getOwnPropertyDescriptor" p₂) p₃)
        [⟨false, e⟩, ⟨false, .text key p₄⟩] p₅) (.named "set" p₆) place)
  | prototype {id : NodeId} {p₁ p₂ p₃ place : Span} :
    Leads e .prototype (.call (.member (.ident "Object" id p₁) (.named "getPrototypeOf" p₂) p₃)
      [⟨false, e⟩] place)
  | wrappedValue {p₁ p₂ place : Span} :
    Leads e .wrappedValue (.call (.member e (.named "valueOf" p₁) p₂) [] place)
  | setElement {index : ℕ} {p₁ p₂ p₃ p₄ p₅ place : Span} :
    Leads e (.setElement index) (.member
      (.array [some ⟨true, .call (.member e (.named "values" p₁) p₂) [] p₃⟩] p₄)
      (.computed (.number (Number.nearest index 0) p₅)) place)

/-- The expression is that of some steps from a root. -/
inductive Script.Expr.IsPath (root : String) : List PathStep → Expr → Prop
  | root {id : NodeId} {place : Span} : IsPath root [] (.ident root id place)
  | step {steps : List PathStep} {step : PathStep} {e e' : Expr} (h : IsPath root steps e)
    (hstep : step.Leads e e') : IsPath root (steps ++ [step]) e'

theorem PathStep.Leads.isAccessPath (h : step.Leads e e') (he : isAccessPath e = true) :
    isAccessPath e' = true := by
  cases h <;> simp [Stasis.isAccessPath, isAccessKey, areAccessPaths, isSpreadPath, isReflectiveCallee,
    isReflective, he]

/-- **What steps denote is an access path.** -/
theorem isAccessPath_of_isPath (h : e.IsPath root steps) : isAccessPath e = true := by
  induction h with
  | root => rfl
  | step _ hstep ih => exact hstep.isAccessPath ih

/-! ## Texts -/

/-- The path that some steps from a root compose. -/
def composedPath (root : String) (steps : List PathStep) : Option String :=
  steps.foldl (fun path step => step.apply path) (some root)

/-- The tokens of a half of a property of something. -/
def halfTokens (key half : String) (parent : List TokenKind) : List TokenKind :=
  [.ident "Object", .punct .dot, .ident "getOwnPropertyDescriptor", .punct .openParen] ++ (parent ++
    [.punct .comma, .text key, .punct .closeParen, .punct .dot, .ident half])

/-- The tokens of what is one step behind something. -/
def PathStep.tokens (parent : List TokenKind) : PathStep → List TokenKind
  | property key => parent ++ [.punct .openBracket, .text key, .punct .closeBracket]
  | symbolProperty key =>
    parent ++ [.punct .openBracket, .ident "Symbol", .punct .dot, .ident "for", .punct .openParen, .text key,
      .punct .closeParen, .punct .closeBracket]
  | getter key => halfTokens key "get" parent
  | setter key => halfTokens key "set" parent
  | prototype =>
    [.ident "Object", .punct .dot, .ident "getPrototypeOf", .punct .openParen] ++ (parent ++
      [.punct .closeParen])
  | wrappedValue =>
    parent ++ [.punct .dot, .ident "valueOf", .punct .openParen, .punct .closeParen]
  | setElement index =>
    [.punct .openBracket, .punct .dots] ++ (parent ++
      [.punct .dot, .ident "values", .punct .openParen, .punct .closeParen, .punct .closeBracket,
        .punct .openBracket, .number (Number.nearest index 0), .punct .closeBracket])
  | unknown => parent

/-- The tokens of a path. -/
def pathTokens (root : String) (steps : List PathStep) : List TokenKind :=
  steps.foldl PathStep.tokens [.ident root]

/-- A text has these tokens, whatever stands behind it, unless a name goes on there. -/
def IsSpelled (cs : List Char) (kinds : List TokenKind) : Prop :=
  ∀ ⦃rest : List Char⦄ ⦃more : List TokenKind⦄, EndsName rest → Tokenizes rest more →
    Tokenizes (cs ++ rest) (kinds ++ more)

/-- The names in the texts of steps. -/
def pathWords : List String :=
  ["Object", "Symbol", "getOwnPropertyDescriptor", "getPrototypeOf", "for", "get", "set", "valueOf", "values"]

theorem isName_pathWord (name : String) (h : name ∈ pathWords) : IsName name := by
  simp only [pathWords, List.mem_cons, List.not_mem_nil, or_false] at h
  rcases h with rfl | rfl | rfl | rfl | rfl | rfl | rfl | rfl | rfl <;> simp [IsName] <;> decide +kernel

theorem endsName_nil : EndsName [] := by
  intro c hc
  cases hc

theorem endsName_point (rest : List Char) : EndsName ('.' :: rest) := by
  intro c hc
  rw [← Option.some.inj hc]
  rfl

/-- Neither a name nor a number goes on in a bracket or a comma. -/
theorem endsNumber_mark {m : Punctuator}
    (hm : m ∈ [.openBracket, .closeBracket, .openParen, .closeParen, .comma]) (rest : List Char) :
    EndsNumber (m.text.toList ++ rest) := by
  simp only [List.mem_cons, List.not_mem_nil, or_false] at hm
  rcases hm with rfl | rfl | rfl | rfl | rfl <;>
  · intro c hc
    rw [← Option.some.inj hc]
    decide +kernel

theorem endsName_mark {m : Punctuator}
    (hm : m ∈ [.openBracket, .closeBracket, .openParen, .closeParen, .comma]) (rest : List Char) :
    EndsName (m.text.toList ++ rest) :=
  (endsNumber_mark hm rest).endsName

namespace Script.Tokenizes

variable {rest : List Char} {more kinds : List TokenKind}

theorem mark {m : Punctuator}
    (hm : m ∈ [.openBracket, .closeBracket, .openParen, .closeParen, .comma, .dots])
    (h : Tokenizes rest more) : Tokenizes (m.text.toList ++ rest) (.punct m :: more) :=
  h.cons (isTakenAt_mark hm rest)

theorem member {name : String} (hname : IsName name) (hrest : EndsName rest) (h : Tokenizes rest more) :
    Tokenizes ('.' :: (name.toList ++ rest)) (.punct .dot :: .ident name :: more) :=
  (h.cons (isTakenAt_name hname hrest)).cons (isTakenAt_dot hname rest)

theorem text (key : String) (h : Tokenizes rest more) :
    Tokenizes ((Text.quote key).toList ++ rest) (.text key :: more) :=
  h.cons (isTakenAt_text key rest)

/-- A call of a function that a global object holds, up to its parenthesis. -/
theorem callee {base name : String} (hbase : IsName base) (hname : IsName name) (h : Tokenizes rest more) :
    Tokenizes (base.toList ++ '.' :: (name.toList ++ '(' :: rest))
      (.ident base :: .punct .dot :: .ident name :: .punct .openParen :: more) :=
  ((h.mark (m := .openParen) (by decide)).member hname (endsName_mark (by decide) rest)).cons
    (isTakenAt_name hbase (endsName_point _))

/-- A half of a property: its name follows what finds the property. -/
theorem half (key : String) {half : String} {parent : List Char} (hhalf : IsName half)
    (hparent : IsSpelled parent kinds) (hrest : EndsName rest) (h : Tokenizes rest more) :
    Tokenizes ("Object.getOwnPropertyDescriptor(".toList ++ (parent ++ (", ".toList ++
      ((Text.quote key).toList ++ (").".toList ++ (half.toList ++ rest))))))
      (halfTokens key half kinds ++ more) := by
  have hkey := ((h.member hhalf hrest).mark (m := .closeParen) (by decide)).cons
    (isTakenAt_text key _).behind_space
  have hobject := hparent (endsName_mark (by decide) _) (hkey.mark (m := .comma) (by decide))
  have hcall := hobject.callee (isName_pathWord "Object" (by decide))
    (isName_pathWord "getOwnPropertyDescriptor" (by decide))
  simpa [halfTokens, Punctuator.text] using hcall

end Script.Tokenizes

theorem exists_compose (h : step ≠ .unknown) (parent : String) : ∃ path, step.compose parent = some path := by
  cases step with
  | unknown => exact absurd rfl h
  | _ => exact ⟨_, rfl⟩

theorem isSpelled_compose {parent path : String} {kinds : List TokenKind}
    (h : IsSpelled parent.toList kinds) (hpath : step.compose parent = some path) :
    IsSpelled path.toList (step.tokens kinds) := by
  intro rest more hrest hmore
  cases step with
  | property key =>
    cases hpath
    have hkey := (hmore.mark (m := .closeBracket) (by decide)).text key
    have hmember := h (endsName_mark (by decide) _) (hkey.mark (m := .openBracket) (by decide))
    simpa [PathStep.tokens, Punctuator.text] using hmember
  | symbolProperty key =>
    cases hpath
    have hkey := ((hmore.mark (m := .closeBracket) (by decide)).mark (m := .closeParen) (by decide)).text key
    have hsymbol := hkey.callee (isName_pathWord "Symbol" (by decide)) (isName_pathWord "for" (by decide))
    have hmember := h (endsName_mark (by decide) _) (hsymbol.mark (m := .openBracket) (by decide))
    simpa [PathStep.tokens, Punctuator.text] using hmember
  | getter key =>
    cases hpath
    have hhalf := hmore.half key (isName_pathWord "get" (by decide)) h hrest
    simpa [PathStep.tokens] using hhalf
  | setter key =>
    cases hpath
    have hhalf := hmore.half key (isName_pathWord "set" (by decide)) h hrest
    simpa [PathStep.tokens] using hhalf
  | prototype =>
    cases hpath
    have hobject := h (endsName_mark (by decide) _) (hmore.mark (m := .closeParen) (by decide))
    have hcall := hobject.callee (isName_pathWord "Object" (by decide))
      (isName_pathWord "getPrototypeOf" (by decide))
    simpa [PathStep.tokens, Punctuator.text] using hcall
  | wrappedValue =>
    cases hpath
    have hcall := (hmore.mark (m := .closeParen) (by decide)).mark (m := .openParen) (by decide)
    have hmember := h (endsName_point _)
      (hcall.member (isName_pathWord "valueOf" (by decide)) (endsName_mark (by decide) _))
    simpa [PathStep.tokens, Punctuator.text] using hmember
  | setElement index =>
    cases hpath
    have hindex := (hmore.mark (m := .closeBracket) (by decide)).cons
      (isTakenAt_digits index (endsNumber_mark (by decide) _))
    have harray := ((hindex.mark (m := .openBracket) (by decide)).mark (m := .closeBracket) (by decide)).mark
      (m := .closeParen) (by decide)
    have hcall := (harray.mark (m := .openParen) (by decide)).member (isName_pathWord "values" (by decide))
      (endsName_mark (by decide) _)
    have hspread := ((h (endsName_point _) hcall).mark (m := .dots) (by decide)).mark
      (m := .openBracket) (by decide)
    simpa [PathStep.tokens, Punctuator.text, Number.digitsOf, toString, Nat.repr] using hspread
  | unknown => cases hpath

/-- **The text of a path has the tokens of its steps.** -/
theorem tokenizes_path (hroot : IsName root) (hsteps : PathStep.unknown ∉ steps) :
    ∃ path, composedPath root steps = some path ∧ Tokenizes path.toList (pathTokens root steps) := by
  have hspelled : ∃ path, composedPath root steps = some path ∧
      IsSpelled path.toList (pathTokens root steps) := by
    induction steps using List.reverseRecOn with
    | nil => exact ⟨root, rfl, fun rest more hrest h => h.cons (isTakenAt_name hroot hrest)⟩
    | append_singleton steps step ih =>
      rw [List.mem_append, List.mem_singleton, not_or] at hsteps
      obtain ⟨parent, hparent, hspelled⟩ := ih hsteps.1
      obtain ⟨path, hpath⟩ := exists_compose (Ne.symm hsteps.2) parent
      refine ⟨path, ?_, ?_⟩
      · rw [composedPath, List.foldl_append, ← composedPath, hparent]
        exact hpath
      · rw [pathTokens, List.foldl_append, ← pathTokens]
        exact isSpelled_compose hspelled hpath
  obtain ⟨path, hpath, hspelled⟩ := hspelled
  have hread := hspelled endsName_nil tokenizes_nil
  rw [List.append_nil, List.append_nil] at hread
  exact ⟨path, hpath, hread⟩

/-! ## Expressions -/

/-- From the depth `n` on, the tokens are read as an operand with a property, if they stand where a name
may end. -/
structure IsReadAs (kinds : List TokenKind) (n : ℕ) (P : Expr → Prop) : Prop where
  starts : ∀ {more : List TokenKind}, FollowsName more → StartsOperand (kinds ++ more)
  climbs : ∀ {m : ℕ} {s : Stream} {more : List TokenKind}, n ≤ m → s.Shows (kinds ++ more) →
    FollowsName more → ∃ e t, P e ∧ (Rules.upTo m).Climbs s e t ∧ t.Shows more

section Reading

variable {kinds more : List TokenKind} {n m : ℕ} {P : Expr → Prop} {r : Rules} {s : Stream}

theorem isReadAs_root (hfree : isReserved root = false) :
    IsReadAs [.ident root] 1 fun e => e.IsPath root [] where
  starts := fun hmore => ⟨hfree, hmore⟩
  climbs := fun _ hs hmore =>
    ⟨_, _, .root, Rules.climbs_ident hs hfree hmore, ⟨hs.tail.kinds, hs.tail.eof⟩⟩

theorem endsOperand_of_shows {t : Stream} {k : Punctuator} (ht : t.Shows (.punct k :: more))
    (hk : k ∈ [.closeBracket, .closeParen, .comma]) : t.peek.kind.EndsOperand :=
  .inr ⟨k, hk, ht.peek⟩

/-- A text is a complete operand before a bracket or a comma. -/
theorem completes_text {key : String} {k : Punctuator} (hk : k ∈ [.closeBracket, .closeParen, .comma])
    (hs : s.Shows (.text key :: .punct k :: more)) :
    (Rules.upTo (n + 1)).Completes s (.text key s.peek.span) s.tail :=
  (Rules.climbs_text hs).completes hs trivial (endsOperand_of_shows hs.tail hk)

/-- What is read as an operand is complete before a bracket or a comma. -/
theorem IsReadAs.completes {k : Punctuator} (h : IsReadAs kinds n P)
    (hk : k ∈ [.closeBracket, .closeParen, .comma]) (hn : n ≤ m) (hs : s.Shows (kinds ++ .punct k :: more)) :
    ∃ e t, P e ∧ (Rules.upTo (m + 1)).Completes s e t ∧ t.Shows (.punct k :: more) := by
  have hmore : FollowsName (.punct k :: more) := followsName_punct (by grind) more
  obtain ⟨e, t, he, hclimbs, ht⟩ := h.climbs hn hs hmore
  exact ⟨e, t, he, hclimbs.completes hs (h.starts hmore) (endsOperand_of_shows ht hk), ht⟩

/-- A member of a variable, as in `Object.getPrototypeOf`. -/
theorem climbs_variable {base name : String} (hbase : isReserved base = false)
    (hs : s.Shows (.ident base :: .punct .dot :: .ident name :: more)) :
    ∃ id p₁ p₂ p₃ t, r.Climbs s (.member (.ident base id p₁) (.named name p₂) p₃) t ∧ t.Shows more := by
  have hident := Rules.climbs_ident (r := r) hs hbase (followsName_punct (by decide) _)
  have ht : Stream.Shows { s.tail with nextId := s.nextId + 1 } _ := ⟨hs.tail.kinds, hs.tail.eof⟩
  exact ⟨_, _, _, _, _, hident.named ht, ht.tail.tail⟩

/-- The call that finds a property of an object. -/
theorem IsReadAs.climbs_descriptor {key : String} (h : IsReadAs kinds n P) (hm : n ≤ m)
    (hs : s.Shows ([.ident "Object", .punct .dot, .ident "getOwnPropertyDescriptor", .punct .openParen] ++
      (kinds ++ (.punct .comma :: .text key :: .punct .closeParen :: more)))) :
    ∃ e id p₁ p₂ p₃ p₄ p₅ t, P e ∧ (Rules.upTo (m + 1)).Climbs s
      (.call (.member (.ident "Object" id p₁) (.named "getOwnPropertyDescriptor" p₂) p₃)
        [⟨false, e⟩, ⟨false, .text key p₄⟩] p₅) t ∧ t.Shows more := by
  obtain ⟨id, p₁, p₂, p₃, t, hcallee, ht⟩ := climbs_variable (r := Rules.upTo (m + 1)) (by decide) hs
  obtain ⟨e, u, he, hobject, hu⟩ := h.completes (by decide) hm ht.tail
  have hkey := completes_text (n := m) (by decide) hu.tail
  exact ⟨e, id, p₁, p₂, p₃, _, _, _, he, hcallee.call_two ht hobject hu hkey hu.tail.tail.peek,
    hu.tail.tail.tail⟩

/-- What is one step further starts as an operand does. -/
theorem IsReadAs.starts_step (h : IsReadAs kinds n P) (hstep : step ≠ .unknown) :
    StartsOperand (step.tokens kinds ++ more) := by
  have hobject (name : String) (ks : List TokenKind) :
      StartsOperand (.ident "Object" :: .punct .dot :: .ident name :: ks) :=
    ⟨by decide, followsName_punct (by decide) _⟩
  cases step with
  | property | symbolProperty | wrappedValue =>
    simp only [PathStep.tokens, List.append_assoc]
    exact h.starts (followsName_punct (by decide) _)
  | getter | setter | prototype => exact hobject _ _
  | setElement => trivial
  | unknown => exact absurd rfl hstep

theorem IsReadAs.climbs_step (h : IsReadAs kinds n P) (hn : 0 < n) (hstep : step ≠ .unknown)
    (hm : n + 1 ≤ m) (hs : s.Shows (step.tokens kinds ++ more)) :
    ∃ e' t, (∃ e, P e ∧ step.Leads e e') ∧ (Rules.upTo m).Climbs s e' t ∧ t.Shows more := by
  obtain ⟨m, rfl⟩ := Nat.exists_eq_add_of_le' hm
  -- the parent stays an operand of the same depth, or it is nested one deeper
  have hdepth : n ≤ m + n := by omega
  cases step with
  | property key =>
    simp only [PathStep.tokens, List.append_assoc] at hs
    obtain ⟨e, t, he, hclimbs, ht⟩ := h.climbs (hdepth.trans (Nat.le_succ _)) hs
      (followsName_punct (by decide) _)
    have hkey := completes_text (n := m + n) (by decide) ht.tail
    exact ⟨_, _, ⟨e, he, .property⟩, hclimbs.keyed ht hkey ht.tail.tail.peek, ht.tail.tail.tail⟩
  | symbolProperty key =>
    simp only [PathStep.tokens, List.append_assoc] at hs
    obtain ⟨e, t, he, hclimbs, ht⟩ := h.climbs (hdepth.trans (Nat.le_succ _)) hs
      (followsName_punct (by decide) _)
    obtain ⟨id, p₁, p₂, p₃, u, hcallee, hu⟩ :=
      climbs_variable (r := Rules.upTo (m + n)) (by decide) ht.tail
    obtain ⟨n, rfl⟩ := Nat.exists_eq_add_of_le' hn
    have hkey := hcallee.call_one hu (completes_text (n := m + n) (by decide) hu.tail) hu.tail.tail.peek
    have hend := endsOperand_of_shows hu.tail.tail.tail (by decide)
    have hstart : StartsOperand (.ident "Symbol" :: .punct .dot :: .ident "for" :: .punct .openParen ::
        .text key :: .punct .closeParen :: .punct .closeBracket :: more) :=
      ⟨by decide, followsName_punct (by decide) _⟩
    exact ⟨_, _, ⟨e, he, .symbolProperty⟩,
      hclimbs.keyed ht (hkey.completes ht.tail hstart hend) hu.tail.tail.tail.peek, hu.tail.tail.tail.tail⟩
  | getter key =>
    simp only [PathStep.tokens, halfTokens, List.append_assoc] at hs
    obtain ⟨e, id, p₁, p₂, p₃, p₄, p₅, t, he, hclimbs, ht⟩ := h.climbs_descriptor hdepth hs
    exact ⟨_, _, ⟨e, he, .getter⟩, hclimbs.named ht, ht.tail.tail⟩
  | setter key =>
    simp only [PathStep.tokens, halfTokens, List.append_assoc] at hs
    obtain ⟨e, id, p₁, p₂, p₃, p₄, p₅, t, he, hclimbs, ht⟩ := h.climbs_descriptor hdepth hs
    exact ⟨_, _, ⟨e, he, .setter⟩, hclimbs.named ht, ht.tail.tail⟩
  | prototype =>
    simp only [PathStep.tokens, List.append_assoc] at hs
    obtain ⟨id, p₁, p₂, p₃, t, hcallee, ht⟩ := climbs_variable (r := Rules.upTo (m + n + 1)) (by decide) hs
    obtain ⟨e, u, he, hobject, hu⟩ := h.completes (by decide) hdepth ht.tail
    exact ⟨_, _, ⟨e, he, .prototype⟩, hcallee.call_one ht hobject hu.peek, hu.tail⟩
  | wrappedValue =>
    simp only [PathStep.tokens, List.append_assoc] at hs
    obtain ⟨e, t, he, hclimbs, ht⟩ := h.climbs (hdepth.trans (Nat.le_succ _)) hs
      (followsName_punct (by decide) _)
    exact ⟨_, _, ⟨e, he, .wrappedValue⟩, (hclimbs.named ht).call_none ht.tail.tail,
      ht.tail.tail.tail.tail⟩
  | setElement index =>
    simp only [PathStep.tokens, List.append_assoc] at hs
    obtain ⟨e, t, he, hclimbs, ht⟩ := h.climbs hdepth hs.tail.tail (followsName_punct (by decide) _)
    have hvalues := (hclimbs.named ht).call_none ht.tail.tail
    have hclosed := ht.tail.tail.tail.tail
    have hspread := hvalues.completes hs.tail.tail (h.starts (followsName_punct (by decide) _))
      (endsOperand_of_shows hclosed (by decide))
    have harray := Rules.climbs_spread hs hspread hclosed.peek
    have hindex := (Rules.climbs_number (r := Rules.upTo (m + n)) hclosed.tail.tail).completes
      hclosed.tail.tail trivial (endsOperand_of_shows hclosed.tail.tail.tail (by decide))
    exact ⟨_, _, ⟨e, he, .setElement⟩, harray.keyed hclosed.tail hindex hclosed.tail.tail.tail.peek,
      hclosed.tail.tail.tail.tail⟩
  | unknown => exact absurd rfl hstep

/-- **One step further.** -/
theorem IsReadAs.step_of_ne (h : IsReadAs kinds n P) (hn : 0 < n) (hstep : step ≠ .unknown) :
    IsReadAs (step.tokens kinds) (n + 1) fun e' => ∃ e, P e ∧ step.Leads e e' where
  starts := fun _ => h.starts_step hstep
  climbs := fun hm hs _ => h.climbs_step hn hstep hm hs

theorem IsReadAs.mono {Q : Expr → Prop} (h : IsReadAs kinds n P) (hPQ : ∀ e, P e → Q e) :
    IsReadAs kinds n Q where
  starts := h.starts
  climbs := fun hm hs hmore =>
    let ⟨e, t, he, hrest⟩ := h.climbs hm hs hmore
    ⟨e, t, hPQ e he, hrest⟩

end Reading

/-- **The tokens of a path are read as its expression.** -/
theorem isReadAs_path (hfree : isReserved root = false) (hsteps : PathStep.unknown ∉ steps) :
    IsReadAs (pathTokens root steps) (steps.length + 1) (Expr.IsPath root steps) := by
  induction steps using List.reverseRecOn with
  | nil => exact isReadAs_root hfree
  | append_singleton steps step ih =>
    rw [List.mem_append, List.mem_singleton, not_or] at hsteps
    rw [pathTokens, List.foldl_append, ← pathTokens, List.length_append]
    refine ((ih hsteps.1).step_of_ne (Nat.succ_pos _) (Ne.symm hsteps.2)).mono ?_
    rintro e' ⟨e, he, hlead⟩
    exact he.step hlead

/-- Every step takes tokens of its own. -/
theorem length_lt_length_pathTokens (root : String) (hsteps : PathStep.unknown ∉ steps) :
    steps.length < (pathTokens root steps).length := by
  induction steps using List.reverseRecOn with
  | nil => exact Nat.zero_lt_one
  | append_singleton steps step ih =>
    rw [List.mem_append, List.mem_singleton, not_or] at hsteps
    have hless := ih hsteps.1
    rw [pathTokens, List.foldl_append, ← pathTokens, List.length_append]
    cases step with
    | unknown => exact absurd rfl hsteps.2
    | _ =>
      simp only [PathStep.tokens, halfTokens, List.foldl_cons, List.foldl_nil, List.length_append,
        List.length_cons, List.length_nil]
      omega

/-- A source is parsed as an expression when its tokens are read as one. -/
theorem parseExpression_eq_ok {source label : String} {tokens : List Token} {stop : Token} {t : Stream}
    (hlex : lex source = .ok (tokens, stop))
    (h : Reads (Rules.upTo (2 * tokens.length + 2)).loneExpression ⟨tokens, stop, .none, 0⟩ e t) :
    parseExpression source label = .ok e := by
  have hrun : (Rules.upTo (2 * tokens.length + 2)).loneExpression.run ⟨tokens, stop, .none, 0⟩ =
      .ok (e, t) := h
  simp only [parseExpression, parseWith, hlex, hrun, bind, Except.bind, pure, Except.pure, Except.mapError]

/-- **Every path is accepted**, and read as the steps that it was composed of. -/
theorem parseExpression_path (hroot : IsName root) (hfree : isReserved root = false)
    (hsteps : PathStep.unknown ∉ steps) (label : String) :
    ∃ path e, composedPath root steps = some path ∧ parseExpression path label = .ok e ∧
      e.IsPath root steps ∧ isAccessPath e = true := by
  obtain ⟨path, hpath, htokens⟩ := tokenizes_path hroot hsteps
  obtain ⟨tokens, stop, hlex, hkinds, hstop⟩ := exists_lex htokens
  have hread := isReadAs_path hfree hsteps
  have hlength := length_lt_length_pathTokens root hsteps
  rw [← hkinds, List.length_map] at hlength
  have hs : Stream.Shows ⟨tokens, stop, .none, 0⟩ (pathTokens root steps) := ⟨hkinds, hstop⟩
  have hnone : FollowsName [] := .inl rfl
  have hstart := hread.starts hnone
  obtain ⟨e, t, he, hclimbs, ht⟩ := hread.climbs (m := 2 * tokens.length + 1) (by omega)
    (by rwa [List.append_nil]) hnone
  rw [List.append_nil] at hstart
  have hcomplete := hclimbs.completes hs hstart (.inl ht.peek_nil)
  exact ⟨path, e, hpath, parseExpression_eq_ok hlex (hcomplete.reads_loneExpression hs hstart ht), he,
    isAccessPath_of_isPath he⟩

/-- A path of steps of every kind, with a key that is all escapes. -/
theorem parseExpression_path_globalThis :
    ∃ path e, composedPath "globalThis"
        [.property "a\"\\\u0001é😀", .getter "g", .setElement 12, .symbolProperty "\n", .wrappedValue,
          .setter "]", .prototype] = some path ∧
      parseExpression path "recorded" = .ok e ∧
      e.IsPath "globalThis" [.property "a\"\\\u0001é😀", .getter "g", .setElement 12, .symbolProperty "\n",
        .wrappedValue, .setter "]", .prototype] ∧ isAccessPath e = true :=
  parseExpression_path (by simp [IsName]; decide +kernel) (by decide) (by simp) "recorded"

end Stasis
