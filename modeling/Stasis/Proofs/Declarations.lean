import Mathlib
import Stasis.Proofs.Defined
import Stasis.Proofs.Leaf

/-!
# What a rejected script leaves behind

The names of a script are declared before its first statement runs, one after another. The first of them
that has been declared before ends this, and nothing takes back the names in front of it. They stay
without a value: nothing can read them, and the next script that declares them is rejected, too.

* `Environment.IsFreeFor`: names that can be declared in an environment.
* `declareAll_cases`: all names are declared, or those in front of the first that cannot be.
* `exists_yields_declareVars`: `var` names become properties of the global object.
* `lexicalCells`, `declareLexical_append`: the names that the statements of a script declare.
* `exists_raises_runProgram`: a script with a name that cannot be declared leaves those in front of it.
* `exists_raises_of_known`: these can neither be read nor be declared again.
-/

namespace Stasis

open Script (Program Statement)

variable {α : Type} {r r' : Realm} {id : EnvId} {e e' g : Environment} {o : Object} {object : ObjectId}
  {name : String} {cell : Cell} {cells known rest : List (String × Cell)} {body : List Statement}

/-! ## Environments -/

namespace Environments

variable {es : Environments} {f f' : Environment → Environment}

theorem get?_modify (h : es.get? id = some e) : (es.modify id f).get? id = some (f e) := by
  unfold get? at h
  simp [get?, modify, Array.getElem?_modify, h]

/-- Only the environment that is there matters. -/
theorem modify_congr (h : es.get? id = some e) (hf : f e = f' e) : es.modify id f = es.modify id f' := by
  unfold modify
  congr 1
  refine Array.ext_getElem? fun i => ?_
  rw [Array.getElem?_modify, Array.getElem?_modify]
  split
  · next heq =>
    rw [← heq, show es.records[id]? = some e from h, Option.map_some, Option.map_some, hf]
  · rfl

theorem modify_modify (es : Environments) (id : EnvId) (f f' : Environment → Environment) :
    (es.modify id f).modify id f' = es.modify id (f' ∘ f) := by
  unfold modify
  congr 1
  refine Array.ext_getElem? fun i => ?_
  rw [Array.getElem?_modify, Array.getElem?_modify, Array.getElem?_modify]
  split
  · exact Option.map_map ..
  · rfl

theorem modify_id (es : Environments) (id : EnvId) : es.modify id (fun e => e) = es := by
  unfold modify
  congr 1
  refine Array.ext_getElem? fun i => ?_
  rw [Array.getElem?_modify]
  split
  · rw [Option.map_id']
  · rfl

end Environments

/-- The realm with another environment under a number. -/
def Realm.withEnvironment (r : Realm) (id : EnvId) (e : Environment) : Realm :=
  { r with environments := r.environments.modify id fun _ => e }

theorem Realm.get?_withEnvironment (h : r.environments.get? id = some e') :
    (r.withEnvironment id e).environments.get? id = some e :=
  Environments.get?_modify h

theorem Realm.get?_withEnvironment_of_ne {id' : EnvId} (h : id ≠ id') :
    (r.withEnvironment id e).environments.get? id' = r.environments.get? id' := by
  simp [withEnvironment, Environments.get?, Environments.modify, Array.getElem?_modify, h]

theorem Realm.withEnvironment_withEnvironment (r : Realm) (id : EnvId) (e e' : Environment) :
    (r.withEnvironment id e).withEnvironment id e' = r.withEnvironment id e' := by
  simp only [withEnvironment, Environments.modify_modify]
  rfl

theorem Realm.withEnvironment_self (h : r.environments.get? id = some e) :
    r.withEnvironment id e = r := by
  have hsame : r.environments.modify id (fun _ => e) = r.environments.modify id fun e => e :=
    Environments.modify_congr h rfl
  rw [withEnvironment, hsame, Environments.modify_id]

theorem yields_changeEnvironment (h : r.environments.get? id = some e) (f : Environment → Environment) :
    Yields (changeEnvironment id f) r () (r.withEnvironment id (f e)) := by
  have hsame : r.environments.modify id (fun _ => f e) = r.environments.modify id f :=
    Environments.modify_congr h rfl
  rw [Realm.withEnvironment, hsame]
  exact yields_modify _ r

/-! ## Errors -/

/-- A definition on the newest object changes this object and nothing else. -/
theorem exists_yields_define_newest (r : Realm) (o : Object) (key : Key) (d : Descriptor) :
    ∃ done o', Yields (define r.store.size key d) { r with store := ⟨r.store.objects.push o⟩ } done
      { r with store := ⟨r.store.objects.push o'⟩ } := by
  refine ⟨(o.define key d).2, (o.define key d).1, yields_changeStore ?_⟩
  simp [Store.define, Store.get_push_size, Store.set_push_size, bind, Except.bind, pure, Except.pure]

/-- An error is a new object. -/
theorem exists_raises_throwNew (kind : ErrorKind) (message : String) (r : Realm) :
    ∃ o, Raises (throwNew kind message : Run α) r
      (.thrown (.object r.store.size) (kind.name ++ ": " ++ message))
      { r with store := ⟨r.store.objects.push o⟩ } := by
  have hallocate := yields_allocate (some (r.known.errors kind)) .error r
  obtain ⟨_, o, hmessage⟩ := exists_yields_define_newest r
    { prototype := some (r.known.errors kind), kind := .error }
    (.text "message") (.hidden (.text message))
  obtain ⟨_, o', hstack⟩ := exists_yields_define_newest r o (.text "stack")
    (.hidden (.text (kind.name ++ ": " ++ message ++ "\n    at <script>")))
  have herror : Yields (newError kind message) r r.store.size
      { r with store := ⟨r.store.objects.push o'⟩ } :=
    (yields_get r).bind (hallocate.bind (hmessage.bind (hstack.bind (Yields.pure _ _))))
  exact ⟨o', herror.bind_raises (raises_raise _ _)⟩

/-! ## Declaring names -/

/-- The environment with more variables. -/
def Environment.withCells (e : Environment) (cells : List (String × Cell)) : Environment :=
  { e with cells := cells.foldl (fun t c => t.insert c.1 c.2) e.cells }

theorem Environment.withCells_cons (e : Environment) (name : String) (cell : Cell)
    (cells : List (String × Cell)) :
    e.withCells ((name, cell) :: cells) = (e.withCells [(name, cell)]).withCells cells := rfl

/-- Some names can be declared: none of them has been declared before, and they differ. -/
structure Environment.IsFreeFor (e : Environment) (cells : List (String × Cell)) : Prop where
  fresh : ∀ c ∈ cells, e.cells.contains c.1 = false
  nodup : (cells.map Prod.fst).Nodup

theorem Environment.isFreeFor_nil (e : Environment) : e.IsFreeFor [] := ⟨nofun, List.nodup_nil⟩

theorem Environment.contains_withCells_singleton (e : Environment) (name name' : String)
    (cell : Cell) : (e.withCells [(name, cell)]).cells.contains name' =
      (decide (name = name') || e.cells.contains name') := by
  show (e.cells.insert name cell).contains name' = _
  rw [Table.contains, Table.find?_insert, Table.contains]
  by_cases hname : name = name'
  · simp [hname]
  · simp [hname]

/-- One name after another. -/
theorem Environment.isFreeFor_cons_iff : e.IsFreeFor ((name, cell) :: cells) ↔
    e.cells.contains name = false ∧ (e.withCells [(name, cell)]).IsFreeFor cells := by
  constructor
  · rintro ⟨hfresh, hnodup⟩
    obtain ⟨hname, hnodup⟩ := List.nodup_cons.mp hnodup
    refine ⟨hfresh _ List.mem_cons_self, fun c hc => ?_, hnodup⟩
    have hne : name ≠ c.1 := by
      rintro rfl
      exact hname (List.mem_map.mpr ⟨c, hc, rfl⟩)
    rw [contains_withCells_singleton, hfresh c (List.mem_cons_of_mem _ hc), Bool.or_false]
    exact decide_eq_false hne
  · rintro ⟨hname, hfresh, hnodup⟩
    have hboth : ∀ c ∈ cells, name ≠ c.1 ∧ e.cells.contains c.1 = false := by
      intro c hc
      have hfresh := hfresh c hc
      rw [contains_withCells_singleton, Bool.or_eq_false_iff, decide_eq_false_iff_not] at hfresh
      exact hfresh
    refine ⟨List.forall_mem_cons.mpr ⟨hname, fun c hc => (hboth c hc).2⟩, ?_⟩
    refine List.nodup_cons.mpr ⟨fun hmem => ?_, hnodup⟩
    obtain ⟨c, hc, heq⟩ := List.mem_map.mp hmem
    exact (hboth c hc).1 heq.symm

/-- Other names stay what they are. -/
theorem Environment.find?_withCells_of_notMem (hname : name ∉ cells.map Prod.fst) :
    (e.withCells cells).cells.find? name = e.cells.find? name := by
  induction cells generalizing e with
  | nil => rfl
  | cons c cells ih =>
    have hne : name ≠ c.1 := List.ne_of_not_mem_cons hname
    rw [withCells_cons, ih (List.not_mem_of_not_mem_cons hname)]
    show (e.cells.insert c.1 c.2).find? name = _
    rw [Table.find?_insert, if_neg (Ne.symm hne)]

/-- Names that can be declared are found then with what they have been declared as. -/
theorem Environment.find?_withCells {c : String × Cell} (hfree : e.IsFreeFor cells)
    (hc : c ∈ cells) : (e.withCells cells).cells.find? c.1 = some c.2 := by
  induction cells generalizing e with
  | nil => cases hc
  | cons first cells ih =>
    obtain ⟨name, cell⟩ := first
    rw [withCells_cons]
    rcases List.mem_cons.mp hc with rfl | hc
    · have hname := (List.nodup_cons.mp hfree.nodup).1
      rw [find?_withCells_of_notMem hname]
      show (e.cells.insert name cell).find? name = _
      rw [Table.find?_insert, if_pos rfl]
    · exact ih (isFreeFor_cons_iff.mp hfree).2 hc

/-- The message for a name that cannot be declared. -/
def redeclaredText (name : String) : String :=
  "Identifier '" ++ name ++ "' has already been declared"

theorem yields_declare (he : r.environments.get? id = some e)
    (hname : e.cells.contains name = false) (cell : Cell) :
    Yields (declare id name cell) r () (r.withEnvironment id (e.withCells [(name, cell)])) := by
  refine (yields_environmentAt he).bind ?_
  rw [hname]
  exact yields_changeEnvironment he _

theorem exists_raises_declare (he : r.environments.get? id = some e)
    (hname : e.cells.contains name = true) (cell : Cell) :
    ∃ o, Raises (declare id name cell) r
      (.thrown (.object r.store.size) ("SyntaxError: " ++ redeclaredText name))
      { r with store := ⟨r.store.objects.push o⟩ } := by
  obtain ⟨o, hthrow⟩ := exists_raises_throwNew (α := PUnit) .syntaxError (redeclaredText name) r
  refine ⟨o, (yields_environmentAt he).bind_raises ?_⟩
  rw [hname]
  exact hthrow.bind _

/-- Declares names, one after another. -/
def declareAll (id : EnvId) : List (String × Cell) → Run Unit
  | [] => return ()
  | (name, cell) :: cells => do
    declare id name cell
    declareAll id cells

/-- **All names are declared, or those in front of the first that cannot be.** Nothing takes them
back. -/
theorem declareAll_cases (he : r.environments.get? id = some e) (cells : List (String × Cell)) :
    (e.IsFreeFor cells ∧ Yields (declareAll id cells) r () (r.withEnvironment id (e.withCells cells))) ∨
      ∃ known name cell rest o, cells = known ++ (name, cell) :: rest ∧ e.IsFreeFor known ∧
        (e.withCells known).cells.contains name = true ∧ Raises (declareAll id cells) r
          (.thrown (.object r.store.size) ("SyntaxError: " ++ redeclaredText name))
          { r.withEnvironment id (e.withCells known) with store := ⟨r.store.objects.push o⟩ } := by
  induction cells generalizing r e with
  | nil =>
    refine .inl ⟨e.isFreeFor_nil, ?_⟩
    rw [show e.withCells [] = e from rfl, Realm.withEnvironment_self he]
    exact Yields.pure () r
  | cons c cells ih =>
    obtain ⟨name, cell⟩ := c
    cases hname : e.cells.contains name with
    | true =>
      obtain ⟨o, hdeclare⟩ := exists_raises_declare he hname cell
      refine .inr ⟨[], name, cell, cells, o, rfl, e.isFreeFor_nil, hname, ?_⟩
      rw [show e.withCells [] = e from rfl, Realm.withEnvironment_self he]
      exact hdeclare.bind _
    | false =>
      have hdeclare := yields_declare he hname cell
      rcases ih (Realm.get?_withEnvironment he) with
        ⟨hfree, hall⟩ | ⟨known, name', cell', rest, o, rfl, hfree, htaken, hall⟩
      · refine .inl ⟨Environment.isFreeFor_cons_iff.mpr ⟨hname, hfree⟩, ?_⟩
        rw [Realm.withEnvironment_withEnvironment] at hall
        exact hdeclare.bind hall
      · refine .inr ⟨(name, cell) :: known, name', cell', rest, o, rfl,
          Environment.isFreeFor_cons_iff.mpr ⟨hname, hfree⟩, htaken, ?_⟩
        rw [Realm.withEnvironment_withEnvironment] at hall
        exact hdeclare.bind_raises hall

/-! ## Variables of the global object -/

/-- What is declared with `var` and was not there. -/
def varProperty : Descriptor := .data .undefined true true false

/-- The object has got variables: properties that cannot be deleted. What was there stays. -/
structure Object.Gains (o o' : Object) (names : List String) : Prop where
  own? : ∀ key, o'.own? key =
    (o.own? key).or (if key ∈ names.map Key.text then some varProperty else none)
  extensible : o'.extensible = o.extensible
  kind : o'.kind = o.kind

theorem Object.gains_nil (o : Object) : o.Gains o [] := by
  refine ⟨fun key => ?_, rfl, rfl⟩
  rw [List.map_nil, if_neg List.not_mem_nil, Option.or_none]

theorem Object.Gains.trans {o' o'' : Object} {names more : List String} (h : o.Gains o' names)
    (hmore : o'.Gains o'' more) : o.Gains o'' (names ++ more) where
  own? := by
    intro key
    rw [hmore.own?, h.own?, Option.or_assoc, List.map_append]
    by_cases hkey : key ∈ names.map Key.text
    · rw [if_pos hkey, if_pos (List.mem_append_left _ hkey), Option.some_or]
    · rw [if_neg hkey, Option.none_or]
      simp only [List.mem_append, hkey, false_or]
  extensible := hmore.extensible.trans h.extensible
  kind := hmore.kind.trans h.kind

theorem Object.gains_of_some {d : Descriptor} (h : o.own? (.text name) = some d) :
    o.Gains o [name] := by
  refine ⟨fun key => ?_, rfl, rfl⟩
  rw [List.map_singleton]
  split
  · next hkey => rw [List.mem_singleton.mp hkey, h, Option.some_or]
  · rw [Option.or_none]

theorem Object.gains_insert (h : o.own? (.text name) = none) :
    o.Gains { o with properties := o.properties.insert (.text name) varProperty } [name] := by
  refine ⟨fun key => ?_, rfl, rfl⟩
  rw [Object.own?, Table.find?_insert, List.map_singleton]
  by_cases hkey : key = .text name
  · rw [if_pos hkey.symm, if_pos (List.mem_singleton.mpr hkey), hkey, h, Option.none_or]
  · rw [if_neg (Ne.symm hkey), if_neg (mt List.mem_singleton.mp hkey), Option.or_none]
    rfl

/-- New properties can be added to the object, as to any but an array. -/
structure Object.IsOpen (o : Object) : Prop where
  extensible : o.extensible = true
  kind : o.kind.isArray = false

theorem Object.IsOpen.define? {key : Key} (h : o.IsOpen) (d : Descriptor) (hkey : o.own? key = none) :
    o.define? key d = some { o with properties := o.properties.insert key d } := by
  simp [Object.define?, allows, hkey, h.extensible, h.kind]

theorem Object.Gains.isOpen {o' : Object} {names : List String} (h : o.Gains o' names)
    (ho : o.IsOpen) : o'.IsOpen :=
  ⟨h.extensible.trans ho.extensible, h.kind ▸ ho.kind⟩

/-- One variable of the global object. -/
theorem exists_yields_declareVar (he : r.environments.get? id = some e)
    (hobject : e.object = some object) (ho : r.store.get object = .ok o) (hopen : o.IsOpen)
    (name : String) : ∃ o', o.Gains o' [name] ∧
      Yields (declareVar id name) r () { r with store := r.store.set object o' } := by
  have hfound : Yields (objectAt object) r o r := yields_objectAt ho
  cases hown : o.own? (.text name) with
  | some d =>
    refine ⟨o, Object.gains_of_some hown, (yields_environmentAt he).bind ?_⟩
    rw [hobject, Store.set_get ho]
    refine hfound.bind ?_
    rw [hown]
    exact Yields.pure () r
  | none =>
    refine ⟨_, Object.gains_insert hown, (yields_environmentAt he).bind ?_⟩
    rw [hobject]
    refine hfound.bind ?_
    rw [hown]
    exact (yields_define ho (hopen.define? varProperty hown)).bind (Yields.pure () _)

theorem exists_yields_declareVars (he : r.environments.get? id = some e)
    (hobject : e.object = some object) (ho : r.store.get object = .ok o) (hopen : o.IsOpen)
    (names : List String) : ∃ o', o.Gains o' names ∧
      Yields (declareVars id names) r () { r with store := r.store.set object o' } := by
  induction names generalizing r o with
  | nil =>
    refine ⟨o, o.gains_nil, ?_⟩
    rw [Store.set_get ho]
    exact Yields.pure () r
  | cons name names ih =>
    obtain ⟨o', hgains, hdeclare⟩ := exists_yields_declareVar he hobject ho hopen name
    have ho' := Store.get_set_self (o := o') (Store.lt_size_of_get ho)
    obtain ⟨o'', hmore, hall⟩ := ih (r := { r with store := r.store.set object o' }) he ho'
      (hgains.isOpen hopen)
    refine ⟨o'', hgains.trans hmore, hdeclare.bind ?_⟩
    rwa [Store.set_set] at hall

/-! ## Realms in which scripts declare names -/

/-- A realm in which scripts declare names: in the environment `e`, and as properties of an object. -/
structure Realm.Declares (r : Realm) (e : Environment) (object : ObjectId) (o : Object) : Prop where
  script : r.environments.get? r.scriptEnv = some e
  own : e.object = none
  global : ∃ g, r.environments.get? r.globalEnv = some g ∧ g.object = some object
  apart : r.globalEnv ≠ r.scriptEnv
  object : r.store.get object = .ok o
  isOpen : o.IsOpen

/-- New properties can be added to the global object of a fresh realm. -/
theorem exists_isOpen_global {iterator : SymbolId} {symbols : Symbols} {known : WellKnown}
    {store : Store} (hcreate : Symbols.create {} (some "Symbol.iterator") = (iterator, symbols))
    (hbuild : (buildGlobals iterator).run {} = (known, store)) :
    ∃ o, store.get known.global = .ok o ∧ o.IsOpen := by
  have hopen : ((Realm.fresh {}).store.get (Realm.fresh {}).known.global).toOption.any
      (fun o => o.extensible && !o.kind.isArray) = true := by
    decide +kernel
  unfold Realm.fresh at hopen
  rw [hcreate] at hopen
  dsimp only at hopen
  rw [hbuild] at hopen
  dsimp only at hopen
  cases ho : store.get known.global with
  | error => rw [ho] at hopen; cases hopen
  | ok o =>
    rw [ho, Except.toOption, Option.any_some, Bool.and_eq_true, Bool.not_eq_true'] at hopen
    exact ⟨o, rfl, hopen.1, hopen.2⟩

/-- Scripts declare names in every fresh realm. -/
theorem exists_declares_fresh (config : Config) :
    ∃ object o, (Realm.fresh config).Declares { parent := some 0 } object o := by
  unfold Realm.fresh
  split
  next iterator symbols hcreate =>
    split
    next known store hbuild =>
      obtain ⟨o, ho, hopen⟩ := exists_isOpen_global hcreate hbuild
      exact ⟨known.global, o, rfl, rfl, ⟨_, rfl, rfl⟩, Nat.zero_ne_one, ho, hopen⟩

/-- More variables in the environment of scripts, and another store. -/
theorem Realm.Declares.withCells {s : Store} {o' : Object} (hr : r.Declares e object o)
    (cells : List (String × Cell)) (ho' : s.get object = .ok o') (hopen : o'.IsOpen) :
    Realm.Declares { r.withEnvironment r.scriptEnv (e.withCells cells) with store := s }
      (e.withCells cells) object o' where
  script := get?_withEnvironment hr.script
  own := hr.own
  global := by
    obtain ⟨g, hglobal, hobject⟩ := hr.global
    exact ⟨g, (get?_withEnvironment_of_ne (Ne.symm hr.apart)).trans hglobal, hobject⟩
  apart := hr.apart
  object := ho'
  isOpen := hopen

/-! ## The names of a script -/

/-- What a statement declares in the environment of its list, other than a function. -/
def lexicalCellsOf : Statement → List (String × Cell)
  | .declaration d =>
    if d.kind != .var then
      d.declarators.map fun x => (x.binding.name, .declared (d.kind != .const))
    else []
  | .class d => (d.name.map fun b => (b.name, .declared true)).toList
  | _ => []

/-- What statements declare in their environment. -/
def lexicalCells (body : List Statement) : List (String × Cell) := body.flatMap lexicalCellsOf

/-- No variable that a script declares has a value from the beginning. -/
theorem initialized_of_mem_lexicalCells {c : String × Cell} (hc : c ∈ lexicalCells body) :
    c.2.initialized = false := by
  obtain ⟨x, -, hc⟩ := List.mem_flatMap.mp hc
  unfold lexicalCellsOf at hc
  split at hc
  · split at hc
    · obtain ⟨d, -, rfl⟩ := List.mem_map.mp hc
      rfl
    · cases hc
  · obtain ⟨d, -, rfl⟩ := Option.mem_map.mp (Option.mem_toList.mp hc)
    rfl
  · cases hc

theorem declareAll_nil_bind (id : EnvId) (x : Run α) : (declareAll id [] >>= fun _ => x) = x :=
  pure_bind () fun _ => x

theorem declareAll_append (id : EnvId) (cells more : List (String × Cell)) :
    declareAll id (cells ++ more) = declareAll id cells >>= fun _ => declareAll id more := by
  induction cells with
  | nil => exact (declareAll_nil_bind id _).symm
  | cons c cells ih =>
    simp only [List.cons_append, declareAll, ih, bind_assoc]

theorem forIn_declare_eq {γ : Type} (id : EnvId) (f : γ → String × Cell) (l : List γ) :
    (forIn l PUnit.unit fun x _ => do
      declare id (f x).1 (f x).2
      return ForInStep.yield PUnit.unit) = declareAll id (l.map f) := by
  induction l with
  | nil => rfl
  | cons x l ih =>
    rw [List.forIn_cons, List.map_cons, declareAll, ← ih]
    simp only [bind_assoc, pure_bind]

variable [Machine]

/-- **The names of statements are declared one after another**, up to the first function. -/
theorem declareLexical_append {target : Option EnvId} {front rest : List Statement} (id : EnvId)
    (hfront : ∀ x ∈ front, ∀ f, x ≠ .function f) :
    declareLexical id target (front ++ rest) =
      declareAll id (lexicalCells front) >>= fun _ => declareLexical id target rest := by
  induction front with
  | nil => exact (declareAll_nil_bind id _).symm
  | cons x front ih =>
    have ih := ih fun y hy => hfront y (List.mem_cons_of_mem _ hy)
    rw [lexicalCells, List.flatMap_cons, declareAll_append, ← lexicalCells, bind_assoc, ← ih,
      List.cons_append]
    cases x with
    | function f => exact absurd rfl (hfront _ List.mem_cons_self f)
    | declaration d =>
      simp only [declareLexical, lexicalCellsOf]
      split
      · rw [← forIn_declare_eq]
      · exact (declareAll_nil_bind id _).symm
    | «class» d =>
      simp only [declareLexical, lexicalCellsOf]
      cases d.name with
      | none => exact (declareAll_nil_bind id _).symm
      | some b =>
        show _ = (declare id b.name (.declared true) >>= fun _ => declareAll id []) >>= _
        simp only [bind_assoc, declareAll_nil_bind]
    | _ => exact (declareAll_nil_bind id _).symm

/-! ## Scripts that are rejected -/

/-- **A script with a name that has been declared before is rejected, and leaves the names in front of
it.** They are in the environment of scripts, all `var` names of the script are properties of the global
object, and the next script finds them there. -/
theorem exists_raises_runProgram {p : Program} {front rest : List Statement}
    (hr : r.Declares e object o) (hp : p.body = front ++ rest)
    (hfront : ∀ x ∈ front, ∀ f, x ≠ .function f) (hclash : ¬ e.IsFreeFor (lexicalCells front)) :
    ∃ known name cell more v r' o', lexicalCells front = known ++ (name, cell) :: more ∧
      e.IsFreeFor known ∧ (e.withCells known).cells.contains name = true ∧
      Raises (runProgram p) r (.thrown v ("SyntaxError: " ++ redeclaredText name)) r' ∧
      r'.Declares (e.withCells known) object o' ∧ o.Gains o' (Script.varNamesOfList p.body) := by
  obtain ⟨g, hglobal, hobject⟩ := hr.global
  obtain ⟨o', hgains, hvars⟩ := exists_yields_declareVars hglobal hobject hr.object hr.isOpen
    (Script.varNamesOfList p.body)
  obtain ⟨known, name, cell, more, thrown, hcells, hfree, htaken, hraise⟩ :=
    (declareAll_cases (r := { r with store := r.store.set object o' }) hr.script
      (lexicalCells front)).resolve_left fun h => hclash h.1
  have hlexical := hraise.bind fun _ => declareLexical r.scriptEnv (some r.globalEnv) rest
  rw [← declareLexical_append r.scriptEnv hfront, ← hp] at hlexical
  have hrun : Raises (runProgram p) r _ _ :=
    (yields_get r).bind_raises (hvars.bind_raises (hlexical.bind _))
  have ho' : (r.store.set object o').get object = .ok o' :=
    Store.get_set_self (Store.lt_size_of_get hr.object)
  exact ⟨known, name, cell, more, _, _, o', hcells, hfree, htaken, hrun,
    hr.withCells known (Store.get_push ho') (hgains.isOpen hr.isOpen), hgains⟩

/-- The message for a variable without a value. -/
def uninitializedText (name : String) : String :=
  "Cannot access '" ++ name ++ "' before initialization"

/-- A variable without a value cannot be read. -/
theorem exists_raises_readVariable {c : Cell} (he : r.environments.get? id = some e)
    (hobject : e.object = none) (hcell : e.cells.find? name = some c) (hc : c.initialized = false) :
    ∃ v r', Raises (readVariable id name) r
      (.thrown v ("ReferenceError: " ++ uninitializedText name)) r' := by
  have hcontains : e.cells.contains name = true := by rw [Table.contains, hcell, Option.isSome_some]
  obtain ⟨value, initialized, mutable⟩ := c
  cases hc
  obtain ⟨thrown, hthrow⟩ := exists_raises_throwNew (α := Value) .referenceError
    (uninitializedText name) r
  refine ⟨.object r.store.size, { r with store := ⟨r.store.objects.push thrown⟩ },
    (yields_holderOf he hobject hcontains).bind_raises ((yields_environmentAt he).bind_raises ?_)⟩
  rw [hobject, hcell]
  exact hthrow

/-- **What a rejected script has declared is lost.** It has no value, so it cannot be read; and every
script that declares it again is rejected, too. -/
theorem exists_raises_of_known {c : String × Cell}
    (hr : r.Declares (e.withCells known) object o) (hfree : e.IsFreeFor known) (hc : c ∈ known)
    (hvalue : c.2.initialized = false) :
    (∃ v r', Raises (readVariable r.scriptEnv c.1) r
      (.thrown v ("ReferenceError: " ++ uninitializedText c.1)) r') ∧
    ∀ (p : Program) (front rest : List Statement), p.body = front ++ rest →
      (∀ x ∈ front, ∀ f, x ≠ .function f) → c.1 ∈ (lexicalCells front).map Prod.fst →
      ∃ name v r', Raises (runProgram p) r (.thrown v ("SyntaxError: " ++ redeclaredText name)) r' := by
  have hfound := Environment.find?_withCells hfree hc
  refine ⟨exists_raises_readVariable hr.script hr.own hfound hvalue, ?_⟩
  intro p front rest hp hfront hmem
  have hclash : ¬ (e.withCells known).IsFreeFor (lexicalCells front) := by
    intro hnew
    obtain ⟨c', hc', heq⟩ := List.mem_map.mp hmem
    have hfresh := hnew.fresh c' hc'
    rw [heq, Table.contains, hfound] at hfresh
    cases hfresh
  obtain ⟨_, name, _, _, v, r', _, _, _, _, hraise, _⟩ := exists_raises_runProgram hr hp hfront hclash
  exact ⟨name, v, r', hraise⟩

end Stasis
