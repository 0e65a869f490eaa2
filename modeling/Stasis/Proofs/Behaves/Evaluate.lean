import Mathlib
import Stasis.Engine
import Stasis.Proofs.Behaves.Realm

/-!
# Running scripts behaves

* `behaves_evalExpr`, `behaves_execStatement`: expressions and statements.
* `behaves_callScript`, `behaves_constructClass`: functions and classes.
* `behaves_runProgram`: scripts.
-/

namespace Stasis

open Script (Access AssignOp BinaryOp Block CatchClause ClassDef Element Expr ForInit FunctionBody
  FunctionDef Param Program Property PropertyName Statement UnaryOp UpdateOp VariableDecl)

variable {α : Type} {K : Store → Prop}

/-! ## Functions -/

@[grind ←]
theorem behaves_functionNameFor (k : Key) : Behaves (functionNameFor k) := by
  unfold functionNameFor
  grind -linarith

@[grind ←]
theorem behaves_newFunction (node : FunctionDef) (env : EnvId) (home : Option ObjectId)
    (name : Option String) : Behaves (newFunction node env home name) := by
  unfold newFunction
  refine behaves_get.bind fun r => (behaves_allocate _ rfl).bind fun id => ?_
  grind -linarith

theorem leaves_newFunction (node : FunctionDef) (env : EnvId) (home : Option ObjectId)
    (name : Option String) : Leaves K (newFunction node env home name) fun f s => s.IsHalf (some f) := by
  unfold newFunction
  refine behaves_get.bind_leaves fun r =>
    Leaves.bind (behaves_allocate _ rfl).since (leaves_allocate _ _) fun id => ?_
  have hmade : Leaves (fun s => s.HasKind id (.function (.script node env home)) ∧ s.Since K)
      (Pure.pure id) fun f s => s.IsHalf (some f) :=
    .pure fun s hs => (hs.imp fun _ _ h =>
      Store.isHalf_some.mpr (Store.isFunction_iff.mpr ⟨_, h.1, rfl⟩)).isHalf
  refine (behaves_define _ _ rfl).bind_leaves fun _ => (behaves_define _ _ rfl).bind_leaves fun _ => ?_
  split
  · exact behaves_newObject.bind_leaves fun _ => (behaves_define _ _ rfl).bind_leaves fun _ =>
      (behaves_define _ _ rfl).bind_leaves fun _ => hmade
  · exact hmade

@[grind ←]
theorem behaves_functionValue (node : FunctionDef) (env : EnvId) (inferred : Option String) :
    Behaves (functionValue node env inferred) := by
  unfold functionValue
  grind -linarith

@[grind ←]
theorem behaves_declareVars (env : EnvId) (names : List String) :
    Behaves (declareVars env names) := by
  unfold declareVars
  grind -linarith

section Functions

variable [Machine] [SafeMachine]

@[grind ←]
theorem behaves_declareLexical (env : EnvId) (target : Option EnvId) (body : List Statement) :
    Behaves (declareLexical env target body) := by
  induction body with
  | nil => exact Behaves.pure _
  | cons s rest ih =>
    cases s <;> unfold declareLexical <;> grind -linarith

@[grind ←]
theorem behaves_execAll (env : EnvId) (body : List Statement) : Behaves (execAll env body) := by
  induction body with
  | nil => exact Behaves.pure _
  | cons s rest ih =>
    unfold execAll
    grind -linarith

@[grind ←]
theorem behaves_runBody (body : FunctionBody) (env : EnvId) : Behaves (runBody body env) := by
  unfold runBody
  grind -linarith

@[grind ←]
theorem behaves_bindParams (env : EnvId) (params : List Param) :
    ∀ args : List Value, Behaves (bindParams env params args) := by
  induction params with
  | nil => exact fun args => Behaves.pure _
  | cons p params ih =>
    intro args
    unfold bindParams
    grind -linarith

@[grind ←]
theorem behaves_bindArguments (node : FunctionDef) (env : EnvId) (args : List Value) :
    Behaves (bindArguments node env args) := by
  unfold bindArguments
  grind -linarith

@[grind ←]
theorem behaves_callScript (function : ObjectId) (node : FunctionDef) (closure : EnvId)
    (home : Option ObjectId) (this : Value) (args : List Value) (newTarget : Option ObjectId) :
    Behaves (callScript function node closure home this args newTarget) := by
  unfold callScript
  grind -linarith

end Functions

/-! ## Classes -/

/-- The halves that are given are functions; the others are those of an accessor that is there. -/
theorem behavesSince_mergeAccessor {id : ObjectId} {key : Key} {get set : Option ObjectId}
    {enumerable : Bool} (hget : ∀ s : Store, s.Since K → s.IsHalf get)
    (hset : ∀ s : Store, s.Since K → s.IsHalf set) :
    BehavesSince K (mergeAccessor id key get set enumerable) := by
  have hor : ∀ {s : Store} {f g : Option ObjectId}, s.IsHalf f → s.IsHalf g → s.IsHalf (f.or g) := by
    intro s f g hf hg
    cases f with
    | none => exact hg
    | some => exact hf
  unfold mergeAccessor
  refine (behaves_objectAt id).since.bind_leaving (leaves_objectAt id) fun o => ?_
  split
  next oldGet oldSet hold =>
    refine behavesSince_defineOrThrow fun s hs => ?_
    have hpresent : s.IsHalf oldGet ∧ s.IsHalf oldSet := by
      split at hold
      · next hown =>
        cases hold
        exact Store.sound_accessor.mp ((hs.imp fun _ _ h => h.1).own? _ (Option.mem_toList.mpr hown))
      · cases hold
        exact ⟨Store.isHalf_none, Store.isHalf_none⟩
    have hk : s.Since K := hs.join fun _ h => h.2
    exact Store.sound_accessor.mpr ⟨hor (hget s hk) hpresent.1, hor (hset s hk) hpresent.2⟩

/-- A new function may become half of an accessor. -/
@[grind ←]
theorem behaves_newFunction_bind {node : FunctionDef} {env : EnvId} {home : Option ObjectId}
    {name : Option String} {g : ObjectId → Run α}
    (hg : ∀ f, BehavesSince (fun s => s.IsHalf (some f)) (g f)) :
    Behaves (newFunction node env home name >>= g) :=
  (behaves_newFunction node env home name).bind_leaving (leaves_newFunction node env home name) hg

@[grind ←]
theorem behavesSince_mergeGetter (id : ObjectId) (key : Key) (f : ObjectId) (enumerable : Bool) :
    BehavesSince (fun s => s.IsHalf (some f)) (mergeAccessor id key (some f) none enumerable) :=
  behavesSince_mergeAccessor (fun _ hs => hs.isHalf) fun _ _ => Store.isHalf_none

@[grind ←]
theorem behavesSince_mergeSetter (id : ObjectId) (key : Key) (f : ObjectId) (enumerable : Bool) :
    BehavesSince (fun s => s.IsHalf (some f)) (mergeAccessor id key none (some f) enumerable) :=
  behavesSince_mergeAccessor (fun _ _ => Store.isHalf_none) fun _ hs => hs.isHalf

@[grind ←]
theorem behaves_classPrototype (class_ : ObjectId) : Behaves (classPrototype class_) := by
  unfold classPrototype
  grind -linarith

section Classes

variable [Machine] [SafeMachine]

@[grind ←]
theorem behaves_keyOfName (name : PropertyName) (env : EnvId) : Behaves (keyOfName name env) := by
  unfold keyOfName
  grind -linarith

@[grind ←]
theorem behaves_defineField (node : ClassDef) (classEnv : EnvId) (field : FieldInit)
    (receiver home : ObjectId) : Behaves (defineField node classEnv field receiver home) := by
  unfold defineField
  grind -linarith

@[grind ←]
theorem behaves_initializeFields (class_ instance_ : ObjectId) :
    Behaves (initializeFields class_ instance_) := by
  unfold initializeFields
  grind -linarith

omit [Machine] [SafeMachine] in
@[grind ←]
theorem behaves_classParents_refuse (v : Value) : Behaves (classParents.refuse v) := by
  unfold classParents.refuse
  grind -linarith

@[grind ←]
theorem behaves_classParents (superClass : Option Expr) (env : EnvId) :
    Behaves (classParents superClass env) := by
  unfold classParents
  refine behaves_get.bind fun r => ?_
  cases superClass with
  | none => exact Behaves.pure _
  | some e =>
    refine (behaves_eval e env).bind fun parent => ?_
    cases parent with
    | object id =>
      refine behaves_get.bind fun r' => ?_
      grind -linarith
    | _ => grind -linarith

@[grind ←]
theorem behaves_defineMembers (env : EnvId) (class_ prototype : ObjectId)
    (members : List (Script.ClassMember × ℕ)) :
    Behaves (defineMembers env class_ prototype members) := by
  induction members with
  | nil => exact Behaves.pure _
  | cons m rest ih =>
    unfold defineMembers
    refine (behaves_keyOfName _ _).bind fun key => ?_
    refine (behaves_functionNameFor key).bind fun name => ?_
    have hrest := ih
    cases m.1.kind <;> grind -linarith

@[grind ←]
theorem behaves_evalClass (node : ClassDef) (outer : EnvId) (inferred : Option String) :
    Behaves (evalClass node outer inferred) := by
  unfold evalClass
  refine (behaves_newBlock outer).bind fun env => ?_
  extract_lets derived name length rest
  have hrest : ∀ u, Behaves (rest u) := by
    intro u
    refine (behaves_classParents _ env).bind fun parents => ?_
    refine (behaves_allocate _ rfl).bind fun prototype => ?_
    refine (behaves_allocate _ rfl).bind_leaving (leaves_allocate _ _) fun class_ => ?_
    refine (behaves_define _ _ rfl).since.bind fun _ => (behaves_define _ _ rfl).since.bind fun _ => ?_
    refine (behaves_define _ _ rfl).since.bind fun _ => (behaves_define _ _ rfl).since.bind fun _ => ?_
    refine (behaves_defineMembers _ _ _ _).since.bind fun fields => ?_
    -- nothing that ran in between has made anything else of the class
    refine BehavesSince.bind (behavesSince_setKind fun s hs => ?_) fun _ => Behaves.since ?_
    · obtain ⟨k, hk, hbecomes, -⟩ := hs.hasKind
      obtain ⟨present, rfl⟩ := hbecomes.class
      exact ⟨_, hk, .class node env derived present fields.1⟩
    · grind -linarith
  clear_value rest
  cases node.name <;> grind -linarith

@[grind ←]
theorem behaves_superCall (env : EnvId) (args : List Value) : Behaves (superCall env args) := by
  unfold superCall
  refine behaves_get.bind fun r => (behaves_environmentAt _).bind fun e => ?_
  split
  · refine (behaves_objectAt _).bind fun o => behaves_get.bind fun r' => ?_
    extract_lets rest
    have hrest : ∀ u, Behaves (rest u) := by
      intro u
      refine (behaves_construct _ _ _).bind fun result => ?_
      grind -linarith
    grind -linarith
  · exact behaves_throwSyntax _

@[grind ←]
theorem behaves_constructClass (class_ : ObjectId) (node : ClassDef) (classEnv : EnvId)
    (derived : Bool) (args : List Value) (newTarget : ObjectId) :
    Behaves (constructClass class_ node classEnv derived args newTarget) := by
  unfold constructClass
  refine (behaves_classPrototype class_).bind fun home => (behaves_newEnvironment _).bind fun env => ?_
  extract_lets finish skip rest
  have hrest : ∀ u, Behaves (rest u) := by
    intro u
    grind -linarith
  split
  · refine behaves_get.bind fun r => (behaves_prototypeFrom _ _).bind fun prototype => ?_
    grind -linarith
  · exact hrest ()

end Classes

/-! ## Operators -/

@[grind ←]
theorem behaves_throwMixed : Behaves (throwMixed : Run α) := behaves_throwType _

@[grind ←]
theorem behaves_numbersBefore? (a b : Value) : Behaves (numbersBefore? a b) := by
  unfold numbersBefore?
  grind -linarith

@[grind ←]
theorem behaves_behind (target : ObjectId) (steps : ℕ) :
    ∀ id : ObjectId, Behaves (behind target steps id) := by
  induction steps with
  | zero => exact fun id => behaves_outOfFuel
  | succ steps ih =>
    intro id
    unfold behind
    grind -linarith

section Operators

variable [Machine] [SafeMachine]

@[grind ←]
theorem behaves_arithmetic (op : BinaryOp) (left right : Value) :
    Behaves (arithmetic op left right) := by
  unfold arithmetic
  grind -linarith

@[grind ←]
theorem behaves_bits (op : BinaryOp) (left right : Value) : Behaves (bits op left right) := by
  unfold bits
  grind -linarith

@[grind ←]
theorem behaves_addValues (left right : Value) : Behaves (addValues left right) := by
  unfold addValues
  grind -linarith

@[grind ←]
theorem behaves_isBefore? (left right : Value) : Behaves (isBefore? left right) := by
  unfold isBefore?
  grind -linarith

@[grind ←]
theorem behaves_looseEquals (left right : Value) : Behaves (looseEquals left right) := by
  unfold looseEquals
  grind -linarith

@[grind ←]
theorem behaves_instanceOf (value target : Value) : Behaves (instanceOf value target) := by
  unfold instanceOf
  grind -linarith

@[grind ←]
theorem behaves_binary (op : BinaryOp) (left right : Value) : Behaves (binary op left right) := by
  unfold binary
  grind -linarith

@[grind ←]
theorem behaves_negate (v : Value) : Behaves (negate v) := by
  unfold negate
  grind -linarith

@[grind ←]
theorem behaves_invert (v : Value) : Behaves (invert v) := by
  unfold invert
  grind -linarith

end Operators

/-! ## Expressions -/

section Expressions

variable [Machine] [SafeMachine]

@[grind ←]
theorem behaves_accessKey (a : Access) (env : EnvId) : Behaves (accessKey a env) := by
  unfold accessKey
  grind -linarith

@[grind ←]
theorem behaves_elementValues (x : Element) (env : EnvId) : Behaves (elementValues x env) := by
  unfold elementValues
  grind -linarith

@[grind ←]
theorem behaves_argumentValues (xs : List Element) (env : EnvId) :
    Behaves (argumentValues xs env) := by
  unfold argumentValues
  grind -linarith

omit [Machine] [SafeMachine] in
@[grind ←]
theorem behaves_addElements (id : ObjectId) (values : List Value) :
    ∀ index : ℕ, Behaves (addElements id index values) := by
  induction values with
  | nil => exact fun index => Behaves.pure _
  | cons v rest ih =>
    intro index
    unfold addElements
    grind -linarith

@[grind ←]
theorem behaves_fillArray (id : ObjectId) (env : EnvId) (elements : List (Option Element)) :
    ∀ index : ℕ, Behaves (fillArray id env index elements) := by
  induction elements with
  | nil => exact fun index => Behaves.pure _
  | cons x rest ih =>
    intro index
    cases x <;> unfold fillArray <;> grind -linarith

@[grind ←]
theorem behaves_evalArray (elements : List (Option Element)) (env : EnvId) :
    Behaves (evalArray elements env) := by
  unfold evalArray
  grind -linarith

@[grind ←]
theorem behaves_copyProperties (target : ObjectId) (source : Value) :
    Behaves (copyProperties target source) := by
  unfold copyProperties
  cases source with
  | object id =>
    refine (behaves_objectAt id).bind fun o => ?_
    grind -linarith
  | _ => grind -linarith

@[grind ←]
theorem behaves_addPart (id : ObjectId) (env : EnvId) (p : Property) :
    Behaves (addPart id env p) := by
  unfold addPart
  grind -linarith

@[grind ←]
theorem behaves_evalObject (parts : List Property) (env : EnvId) :
    Behaves (evalObject parts env) := by
  unfold evalObject
  grind -linarith

@[grind ←]
theorem behaves_superGet (home : ObjectId) (key : Key) (this : Value) :
    Behaves (superGet home key this) := by
  unfold superGet
  grind -linarith

@[grind ←]
theorem behaves_superParts (a : Access) (env : EnvId) : Behaves (superParts a env) := by
  unfold superParts
  grind -linarith

@[grind ←]
theorem behaves_evalPlace (target : Expr) (env : EnvId) : Behaves (evalPlace target env) := by
  unfold evalPlace
  grind -linarith

@[grind ←]
theorem behaves_readPlace (p : Place) (env : EnvId) : Behaves (readPlace p env) := by
  unfold readPlace
  grind -linarith

@[grind ←]
theorem behaves_writePlace (p : Place) (v : Value) (env : EnvId) :
    Behaves (writePlace p v env) := by
  unfold writePlace
  grind -linarith

@[grind ←]
theorem behaves_evalFor (p : Place) (e : Expr) (env : EnvId) : Behaves (evalFor p e env) := by
  unfold evalFor
  grind -linarith

@[grind ←]
theorem behaves_evalAssign (op : AssignOp) (target value : Expr) (env : EnvId) :
    Behaves (evalAssign op target value env) := by
  unfold evalAssign
  grind -linarith

@[grind ←]
theorem behaves_evalUpdate (op : UpdateOp) (before : Bool) (target : Expr) (env : EnvId) :
    Behaves (evalUpdate op before target env) := by
  unfold evalUpdate
  grind -linarith

@[grind ←]
theorem behaves_evalUnary (op : UnaryOp) (operand : Expr) (env : EnvId) :
    Behaves (evalUnary op operand env) := by
  unfold evalUnary
  grind -linarith

@[grind ←]
theorem behaves_evalCallee (callee : Expr) (env : EnvId) : Behaves (evalCallee callee env) := by
  unfold evalCallee
  grind -linarith

@[grind ←]
theorem behaves_evalCall (callee : Expr) (arguments : List Element) (env : EnvId) :
    Behaves (evalCall callee arguments env) := by
  unfold evalCall
  grind -linarith

@[grind ←]
theorem behaves_evalNew (callee : Expr) (arguments : List Element) (env : EnvId) :
    Behaves (evalNew callee arguments env) := by
  unfold evalNew
  grind -linarith

@[grind ←]
theorem behaves_evalSequence (env : EnvId) (items : List Expr) :
    ∀ last : Value, Behaves (evalSequence env last items) := by
  induction items with
  | nil => exact fun last => Behaves.pure _
  | cons e rest ih =>
    intro last
    unfold evalSequence
    grind -linarith

theorem behaves_evalExpr (e : Expr) (name : Option String) (env : EnvId) :
    Behaves (evalExpr e name env) := by
  unfold evalExpr
  grind -linarith

end Expressions

/-! ## Statements -/

section Statements

variable [Machine] [SafeMachine]

@[grind ←]
theorem behaves_execBlock (b : Block) (outer : EnvId) : Behaves (execBlock b outer) := by
  unfold execBlock
  grind -linarith

@[grind ←]
theorem behaves_execVariables (d : VariableDecl) (env : EnvId) :
    Behaves (execVariables d env) := by
  unfold execVariables
  grind -linarith

@[grind ←]
theorem behaves_execWhile (test : Expr) (body : Statement) (env : EnvId) :
    Behaves (execWhile test body env) := by
  unfold execWhile
  grind -linarith

omit [Machine] [SafeMachine] in
@[grind ←]
theorem behaves_copyEnvironment (id : EnvId) : Behaves (copyEnvironment id) := by
  unfold copyEnvironment
  grind -linarith

@[grind ←]
theorem behaves_startFor (start : Option ForInit) (outer env : EnvId) :
    Behaves (startFor start outer env) := by
  unfold startFor
  grind -linarith

@[grind ←]
theorem behaves_execFor (start : Option ForInit) (test update : Option Expr) (body : Statement)
    (outer : EnvId) : Behaves (execFor start test update body outer) := by
  unfold execFor
  refine (behaves_newBlock outer).bind fun env => (behaves_startFor _ _ _).bind fun fresh => ?_
  extract_lets update' loop
  have hloop : ∀ env, Behaves (loop env) := by
    refine fun env => behaves_repeatFrom _ fun env => ?_
    extract_lets round
    have hround : ∀ goOn, Behaves (round goOn) := by
      intro goOn
      grind -linarith
    clear_value round
    cases test <;> grind -linarith
  clear_value loop
  grind -linarith

@[grind ←]
theorem behaves_execHandler (c : CatchClause) (cause : EngineError) (outer : EnvId) :
    Behaves (execHandler c cause outer) := by
  unfold execHandler
  grind -linarith

/-- What is thrown again after the last part is what an earlier part has failed for. -/
theorem ends_execTry (b : Block) (handler : Option CatchClause) (finalizer : Option Block)
    (env : EnvId) : Ends (execTry b handler finalizer env) fun _ => True := by
  unfold execTry
  refine (Ends.attempt (behaves_execBlock b env).ends).bind fun outcome houtcome => ?_
  extract_lets finish
  have hfinish : ∀ outcome, CaughtAs (fun _ => True) outcome →
      Ends (finish outcome) fun _ => True := by
    intro outcome houtcome
    unfold finish
    cases finalizer with
    | none => exact houtcome.ends
    | some f =>
      refine (behaves_execBlock f env).bind_ends fun completion => ?_
      cases completion with
      | normal => exact houtcome.ends
      | _ => exact Ends.pure trivial
  split
  · exact (Ends.attempt (behaves_execHandler _ _ env).ends).bind hfinish
  · exact (Ends.pure houtcome).bind hfinish

theorem steady_execTry (b : Block) (handler : Option CatchClause) (finalizer : Option Block)
    (env : EnvId) (heaps : List (Table String Entry)) :
    Steady heaps (execTry b handler finalizer env) := by
  unfold execTry
  refine ((behaves_execBlock b env).steady heaps).attempt.bind fun outcome => ?_
  extract_lets finish
  have hfinish : ∀ outcome, Steady heaps (finish outcome) := by
    intro outcome
    unfold finish
    cases finalizer with
    | none => exact steady_ofExcept outcome
    | some f =>
      refine ((behaves_execBlock f env).steady heaps).bind fun completion => ?_
      cases completion with
      | normal => exact steady_ofExcept outcome
      | _ => exact Steady.pure _
  split
  · exact ((behaves_execHandler _ _ env).steady heaps).attempt.bind hfinish
  · exact (Steady.pure outcome).bind hfinish

@[grind ←]
theorem behaves_execTry (b : Block) (handler : Option CatchClause) (finalizer : Option Block)
    (env : EnvId) : Behaves (execTry b handler finalizer env) :=
  (ends_execTry b handler finalizer env).behaves (steady_execTry b handler finalizer env)

theorem behaves_execStatement (s : Statement) (env : EnvId) : Behaves (execStatement s env) := by
  unfold execStatement
  grind -linarith

theorem behaves_execTop (env : EnvId) (body : List Statement) :
    ∀ last : Value, Behaves (execTop env last body) := by
  induction body with
  | nil => exact fun last => Behaves.pure _
  | cons s rest ih =>
    intro last
    cases s <;> unfold execTop <;> grind -linarith

/-- **Running a script behaves.** -/
theorem behaves_runProgram (p : Program) : Behaves (runProgram p) := by
  unfold runProgram
  exact behaves_get.bind fun r => (behaves_declareVars _ _).bind fun _ =>
    (behaves_declareLexical _ _ _).bind fun _ => behaves_execTop _ _ _

end Statements

end Stasis
