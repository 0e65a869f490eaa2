import Mathlib
import Stasis.Proofs.Script.PlacedStatements
import Stasis.Proofs.Script.Walked

/-!
# What recorded source looks up

In the recorded source of a construct, names that the construct captures become look-ups in its scope
table. The registrations that are recorded with it look up what they capture from outside of it.

* `exists_capture_of_captured`, `nodup_captures`: a construct lists each name that it captures, once.
* `Draft.lookups`: the names that the recorded source of a construct looks up.
* `lookups_subset_captures`: all of them are listed by the construct itself.
* `recordEdits_of_closed`: a construct that captures nothing is recorded as it is instrumented.
-/

namespace Stasis.Script

variable {d : Draft} {p : Program} {id : NodeId} {span : Span} {scope : ScopeId} {r : Reference}
  {c : Capture} {known : List Capture} {rs : List Reference} {xs : List Insertion} {rec : Recording}

/-! ## Captures of a construct -/

/-- A reference adds its name to the captures, if it is a new one. -/
def addCapture (known : List Capture) (r : Reference) : List Capture :=
  match r.resolved with
  | none => known
  | some declared => if known.any (·.name == r.name) then known else known ++ [⟨r.name, declared⟩]

theorem captures_eq (d : Draft) (id : NodeId) (span : Span) :
    d.captures id span = (d.analysis.captured id span).foldl addCapture [] := rfl

/-- The name of the reference is not among the captures, which it is added to. -/
theorem addCapture_cases (known : List Capture) (r : Reference) :
    addCapture known r = known ∧ (r.resolved ≠ none → ∃ c ∈ known, c.name = r.name) ∨
    ∃ declared, r.resolved = some declared ∧ (∀ c ∈ known, c.name ≠ r.name) ∧
      addCapture known r = known ++ [⟨r.name, declared⟩] := by
  unfold addCapture
  cases hr : r.resolved with
  | none => exact .inl ⟨rfl, fun h => absurd rfl h⟩
  | some declared =>
    by_cases hknown : known.any (·.name == r.name) = true
    · refine .inl ⟨if_pos hknown, fun _ => ?_⟩
      obtain ⟨c, hc, hname⟩ := List.any_eq_true.mp hknown
      exact ⟨c, hc, beq_iff_eq.mp hname⟩
    · refine .inr ⟨declared, rfl, fun c hc hname => hknown ?_, if_neg hknown⟩
      exact List.any_eq_true.mpr ⟨c, hc, beq_iff_eq.mpr hname⟩

theorem subset_foldl_addCapture (rs : List Reference) (known : List Capture) :
    known ⊆ rs.foldl addCapture known := by
  induction rs generalizing known with
  | nil => exact List.Subset.refl known
  | cons r rs ih =>
    refine List.Subset.trans ?_ (ih (addCapture known r))
    rcases addCapture_cases known r with ⟨heq, -⟩ | ⟨_, -, -, heq⟩
    · rw [heq]
      exact List.Subset.refl known
    · rw [heq]
      exact List.subset_append_left _ _

theorem exists_of_foldl_addCapture (hr : r ∈ rs) (hresolved : r.resolved ≠ none)
    (known : List Capture) : ∃ c ∈ rs.foldl addCapture known, c.name = r.name := by
  induction rs generalizing known with
  | nil => cases hr
  | cons r' rs ih =>
    rcases List.mem_cons.mp hr with rfl | hr
    · have hadded : ∃ c ∈ addCapture known r, c.name = r.name := by
        rcases addCapture_cases known r with ⟨heq, hfound⟩ | ⟨declared, -, -, heq⟩
        · rw [heq]
          exact hfound hresolved
        · rw [heq]
          exact ⟨⟨r.name, declared⟩, List.mem_append_right _ List.mem_cons_self, rfl⟩
      obtain ⟨c, hc, hname⟩ := hadded
      exact ⟨c, subset_foldl_addCapture rs _ hc, hname⟩
    · exact ih hr _

/-- A captured reference stands in the construct, and something declares it. -/
theorem reference_of_captured (h : r ∈ d.analysis.captured id span) :
    r ∈ d.analysis.references.toList ∧ r.isIn span = true ∧ r.resolved ≠ none := by
  unfold Analysis.captured at h
  split at h
  · cases h
  · obtain ⟨hmem, hboth⟩ := List.mem_filter.mp h
    obtain ⟨hin, hdeclared⟩ := Bool.and_eq_true_iff.mp hboth
    refine ⟨hmem, hin, fun hnone => ?_⟩
    rw [hnone] at hdeclared
    cases hdeclared

/-- A captured reference is listed by its name. -/
theorem exists_capture_of_captured (h : r ∈ d.analysis.captured id span) :
    ∃ c ∈ d.captures id span, c.name = r.name :=
  exists_of_foldl_addCapture h (reference_of_captured h).2.2 []

theorem mem_of_foldl_addCapture (h : c ∈ rs.foldl addCapture known) :
    c ∈ known ∨ ∃ r ∈ rs, r.name = c.name ∧ r.resolved = some c.declared := by
  induction rs generalizing known with
  | nil => exact .inl h
  | cons r rs ih =>
    rcases ih h with hadded | ⟨r', hr', hr'⟩
    · rcases addCapture_cases known r with ⟨heq, -⟩ | ⟨declared, hresolved, -, heq⟩
      · exact .inl (heq ▸ hadded)
      · rw [heq] at hadded
        refine (List.mem_append.mp hadded).imp_right fun hlast => ?_
        rw [List.mem_singleton.mp hlast]
        exact ⟨r, List.mem_cons_self, rfl, hresolved⟩
    · exact .inr ⟨r', List.mem_cons_of_mem r ‹_›, hr'⟩

/-- What is listed is a captured reference, with the scope that declares it. -/
theorem exists_captured_of_capture (h : c ∈ d.captures id span) :
    ∃ r ∈ d.analysis.captured id span, r.name = c.name ∧ r.resolved = some c.declared :=
  (mem_of_foldl_addCapture h).resolve_left List.not_mem_nil

theorem nodup_foldl_addCapture (rs : List Reference) (h : (known.map Capture.name).Nodup) :
    ((rs.foldl addCapture known).map Capture.name).Nodup := by
  induction rs generalizing known with
  | nil => exact h
  | cons r rs ih =>
    refine ih ?_
    rcases addCapture_cases known r with ⟨heq, -⟩ | ⟨declared, -, hnew, heq⟩
    · rwa [heq]
    · rw [heq, List.map_append, List.nodup_append]
      refine ⟨h, List.nodup_singleton _, ?_⟩
      intro name hname last hlast
      obtain ⟨c, hc, rfl⟩ := List.mem_map.mp hname
      rw [List.mem_singleton.mp hlast]
      exact hnew c hc

/-- **A construct lists no name twice.** -/
theorem nodup_captures (d : Draft) (id : NodeId) (span : Span) :
    ((d.captures id span).map Capture.name).Nodup :=
  nodup_foldl_addCapture _ List.nodup_nil

/-! ## Constructs inside of others -/

/-- A reference in a construct is captured, if it is declared outside of the construct. -/
theorem mem_captured_iff (hscope : d.analysis.constructScope? id = some scope) :
    r ∈ d.analysis.captured id span ↔ r ∈ d.analysis.references.toList ∧ r.isIn span = true ∧
      ∃ declared, r.resolved = some declared ∧ d.analysis.isWithin declared scope = false := by
  unfold Analysis.captured
  rw [hscope]
  simp only [List.mem_filter, Bool.and_eq_true, Option.any_eq_true, Bool.not_eq_true']

/-- What a construct captures from outside of another one around it, that captures too. -/
theorem exists_capture_of_inner {inner : NodeId} {place : Span}
    (hscope : d.analysis.constructScope? id = some scope) (hplace : place.Within span)
    (hc : c ∈ d.captures inner place) (houter : d.analysis.isWithin c.declared scope = false) :
    ∃ c' ∈ d.captures id span, c'.name = c.name := by
  obtain ⟨r, hr, hname, hresolved⟩ := exists_captured_of_capture hc
  obtain ⟨hmem, hin, -⟩ := reference_of_captured hr
  have hin : r.isIn span = true := by
    rw [Reference.isIn, decide_eq_true_iff] at hin ⊢
    exact ⟨hplace.1.trans hin.1, hin.2.trans hplace.2⟩
  rw [← hname]
  exact exists_capture_of_captured ((mem_captured_iff hscope).mpr
    ⟨hmem, hin, c.declared, hresolved, houter⟩)

/-! ## Recorded source -/

/-- The names that the registration of another construct looks up when it is recorded. -/
def Draft.outerNames (d : Draft) (scope : ScopeId) : Piece → List String
  | .text _ => []
  | .record captures _ =>
    (captures.filter fun c => !d.analysis.isWithin c.declared scope).map Capture.name

/-- The names that the recorded source of a construct looks up, in its own references and in the
registrations that are recorded with it. -/
def Draft.lookups (d : Draft) (rec : Recording) (xs : List Insertion) : List String :=
  (d.analysis.captured rec.id rec.span).map Reference.name ++
    (xs.filter (Draft.appliesIn rec)).flatMap fun i => i.pieces.flatMap (d.outerNames rec.scope)

/-- What a registration inside of a construct looks up, the construct captures. -/
theorem outerNames_subset {piece : Piece} (hscope : d.analysis.constructScope? id = some scope)
    (h : piece.RecordsIn d span) :
    d.outerNames scope piece ⊆ (d.captures id span).map Capture.name := by
  intro name hname
  cases piece with
  | text => cases hname
  | record captures source =>
    obtain ⟨inner, place, rfl, hplace⟩ := h
    obtain ⟨c, hc, rfl⟩ := List.mem_map.mp hname
    obtain ⟨hc, houter⟩ := List.mem_filter.mp hc
    rw [Bool.not_eq_true'] at houter
    exact List.mem_map.mpr (exists_capture_of_inner hscope hplace hc houter)

/-- What is inserted into a script records constructs of the nodes it belongs to. -/
theorem recordsIn_of_mem_insertions {source : String} {wrapExpressions : Bool}
    (hp : parseScript source instrumentLabel = .ok p) {i : Insertion}
    (hi : i ∈ insertions ⟨source.toList, analyze p, wrapExpressions⟩ p) :
    ∀ piece ∈ i.pieces, piece.RecordsIn ⟨source.toList, analyze p, wrapExpressions⟩ i.owner := by
  obtain ⟨ts, stop, hlex, hsequence⟩ := sequence_of_parseScript hp
  obtain ⟨n, -, hbelongs⟩ := (layout_insertions (located_of_lex hlex).1 hsequence).belongs i hi
  exact hbelongs.allowed.records

/-- **Recorded source looks up nothing but captures**: every name that the recorded source of a
construct looks up is listed by that construct itself, however deep the look-up is nested. -/
theorem lookups_subset_captures {source : String} {wrapExpressions : Bool}
    (hp : parseScript source instrumentLabel = .ok p)
    (hd : d = ⟨source.toList, analyze p, wrapExpressions⟩)
    (hscope : d.analysis.constructScope? rec.id = some rec.scope) (hxs : xs ⊆ insertions d p) :
    d.lookups rec xs ⊆ (d.captures rec.id rec.span).map Capture.name := by
  intro name hname
  rcases List.mem_append.mp hname with hname | hname
  · obtain ⟨r, hr, rfl⟩ := List.mem_map.mp hname
    exact List.mem_map.mpr (exists_capture_of_captured hr)
  · obtain ⟨i, hi, hname⟩ := List.mem_flatMap.mp hname
    obtain ⟨hi, happlies⟩ := List.mem_filter.mp hi
    obtain ⟨piece, hpiece, hname⟩ := List.mem_flatMap.mp hname
    subst hd
    have hrecords := recordsIn_of_mem_insertions hp (hxs hi) piece hpiece
    obtain ⟨hstart, hstop, -⟩ := of_decide_eq_true happlies
    exact outerNames_subset hscope (hrecords.mono ⟨hstart, hstop⟩) hname

/-! ## Constructs that capture nothing -/

/-- A registration that looks nothing up is recorded as it is inserted. -/
theorem pieceText_of_outerNames_eq_nil {piece : Piece} (h : d.outerNames scope piece = []) :
    d.pieceText (some scope) piece = d.pieceText none piece := by
  cases piece with
  | text => rfl
  | record captures source =>
    have hentry : captures.map (d.captureEntry (some scope)) = captures.map (d.captureEntry none) := by
      refine List.map_congr_left fun c hc => ?_
      have hinner : (!d.analysis.isWithin c.declared scope) = false := by
        have hfilter := List.filter_eq_nil_iff.mp (List.map_eq_nil_iff.mp h) c hc
        exact Bool.eq_false_iff.mpr hfilter
      rw [Draft.captureEntry, Draft.captureEntry, Option.any_some, Option.any_none, hinner]
    rw [Draft.pieceText, Draft.pieceText, hentry]

/-- **A construct that captures nothing is recorded as it is instrumented.** -/
theorem recordEdits_of_closed {source : String} {wrapExpressions : Bool}
    (hp : parseScript source instrumentLabel = .ok p)
    (hd : d = ⟨source.toList, analyze p, wrapExpressions⟩)
    (hscope : d.analysis.constructScope? rec.id = some rec.scope) (hxs : xs ⊆ insertions d p)
    (hclosed : d.captures rec.id rec.span = []) :
    d.recordEdits rec xs = d.scriptEdits (xs.filter (Draft.appliesIn rec)) := by
  have hnone : d.lookups rec xs = [] := by
    have hsubset := lookups_subset_captures hp hd hscope hxs
    rw [hclosed] at hsubset
    exact List.subset_nil.mp hsubset
  obtain ⟨hreferences, hpieces⟩ := List.append_eq_nil_iff.mp hnone
  have hplace : (xs.filter (Draft.appliesIn rec)).map (d.placeInsertion (some rec.scope)) =
      (xs.filter (Draft.appliesIn rec)).map (d.placeInsertion none) := by
    refine List.map_congr_left fun i hi => ?_
    have htext : i.pieces.map (d.pieceText (some rec.scope)) = i.pieces.map (d.pieceText none) := by
      refine List.map_congr_left fun piece hpiece => pieceText_of_outerNames_eq_nil ?_
      exact List.flatMap_eq_nil_iff.mp (List.flatMap_eq_nil_iff.mp hpieces i hi) piece hpiece
    rw [Draft.placeInsertion, Draft.placeInsertion, htext]
  rw [Draft.recordEdits, hplace, List.map_eq_nil_iff.mp hreferences, List.map_nil, List.append_nil,
    Draft.scriptEdits]

end Stasis.Script
