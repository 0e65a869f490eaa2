import Stasis.Script.Parser
import Stasis.Script.Scope
import Stasis.Text.Edit
import Stasis.Text.Quoted

/-!
# Instrumenting a script

An instrumented script registers each of its functions and classes together with the values it
captures and its own source, so that a runtime can suspend them later. Instrumentation only
inserts text; everything the author wrote stays as it is.

* A function or arrow is wrapped in `registerFunction`, a class expression in `registerClass`.
* A function declaration is registered at the top of its statement list, a class declaration right
  behind itself.
* A method of an object literal becomes a registered function; its accessors with static keys are
  registered around the literal.

The recorded source of a construct is its own instrumented text in which every captured reference
is a look-up in its scope table.

* `insertions`: all texts to insert, in the order of a walk through the tree.
* `render`: a part of the source with the insertions that apply to it.
* `instrument`: the instrumented script.
-/

namespace Stasis.Script

open Stasis.Text

/-- The object through which scripts reach the runtime. -/
def runtimeName : String := "__SerializableJs"

/-- The label of a script that is being instrumented. -/
def instrumentLabel : String := "<instrument>"

/-- The order of insertions at one offset: closing texts of earlier constructs, then hoisted
registrations, then opening texts, then replaced references. -/
inductive Phase where
  | close
  | hoist
  | open
  | replace
deriving DecidableEq, Repr

/-- The place of a phase in the order. -/
def Phase.index : Phase → Nat
  | close => 0
  | hoist => 1
  | «open» => 2
  | replace => 3

/-- A name that a construct captures, and the scope that declares it. -/
structure Capture where
  name : String
  declared : ScopeId
deriving DecidableEq, Repr

/-- A part of an inserted text. -/
inductive Piece where
  | text (value : String)
  /-- The captured values and the recorded source of a construct. -/
  | record (captures : List Capture) (source : String)

/-- A text to insert. -/
structure Insertion where
  offset : Nat
  phase : Phase
  /-- How deeply the node it belongs to is nested. -/
  rank : Nat
  /-- The place of that node. -/
  owner : Span
  pieces : List Piece

/-- The look-up of a captured name. -/
def scopeLookup (name : String) : String :=
  scopeLookupName ++ "(" ++ quote name ++ ")"

/-- What a scan for brackets remembers: the depth, the quote it is in and whether that quote's
next character is escaped. -/
structure BracketScan where
  depth : Nat := 0
  quote : Option Char := none
  escaped : Bool := false

/-- One step of the scan; `none` where a bracket closes that was not opened. -/
def BracketScan.step (s : BracketScan) (c : Char) : Option BracketScan :=
  match s.quote with
  | some q =>
    if s.escaped then some { s with escaped := false }
    else if c = '\\' then some { s with escaped := true }
    else if c = q then some { s with quote := none }
    else some s
  | none =>
    if c = '"' ∨ c = '\'' then some { s with quote := some c }
    else if c = '(' ∨ c = '[' ∨ c = '\x7b' then some { s with depth := s.depth + 1 }
    else if c = ')' ∨ c = ']' ∨ c = '\x7d' then
      if s.depth = 0 then none else some { s with depth := s.depth - 1 }
    else some s

/-- Brackets outside of quotes close in number, and none before it opens. The span of an operand
in parentheses can stop inside of them; such a part is not balanced. -/
def isBalanced (cs : List Char) : Bool :=
  match cs.foldlM BracketScan.step {} with
  | none => false
  | some s => s.depth == 0 && s.quote.isNone

/-- A call of the runtime, which is left as it is. -/
def isRuntimeCall : Expr → Bool
  | .member (.ident name _ _) _ _ => name == runtimeName
  | _ => false

/-- What instrumentation works on. -/
structure Draft where
  source : List Char
  analysis : Analysis
  /-- Every expression that can be is checked for being serializable. -/
  wrapExpressions : Bool

/-- The construct whose source is being recorded, with its scope and rank. -/
structure Recording where
  id : NodeId
  scope : ScopeId
  rank : Nat
  span : Span

namespace Draft

variable (d : Draft)

/-- The part of the source in a span. -/
def slice (span : Span) : List Char :=
  Text.slice d.source span.start span.stop

/-- The captured names of a construct, each with the scope that declares it. -/
def captures (id : NodeId) (span : Span) : List Capture :=
  (d.analysis.captured id span).foldl (fun known r =>
    match r.resolved with
    | none => known
    | some declared =>
      if known.any (·.name == r.name) then known else known ++ [⟨r.name, declared⟩]) []

/-- How a captured value is given to a registration. In the recorded source of another construct,
names that the other captures too are looked up there. -/
def captureEntry (within : Option ScopeId) (c : Capture) : String :=
  -- declared outside of the construct that is being recorded
  let outer := within.any fun scope => !d.analysis.isWithin c.declared scope
  let value := if outer then scopeLookup c.name else c.name
  if outer || c.name == thisName then c.name ++ ": " ++ value else value

/-- The text of a piece. -/
def pieceText (within : Option ScopeId) : Piece → String
  | .text value => value
  | .record captures source =>
    let entries := captures.map (d.captureEntry within)
    let scope :=
      if entries.isEmpty then "() => (\x7b\x7d)"
      else "() => (\x7b " ++ String.intercalate ", " entries ++ " \x7d)"
    "scope: " ++ scope ++ ", source: " ++ quote source

/-- The order in which edits at one offset are made: by phase; closing texts from the inside out,
opening texts from the outside in. -/
def tiebreak (phase : Phase) (rank : Nat) : Int :=
  match phase with
  | .close => -rank
  | .open => rank
  | .hoist | .replace => 0

/-- An edit with what decides its order. -/
structure Placed where
  phase : Phase
  tiebreak : Int
  edit : Edit

/-- An edit comes before another, or at the same place. -/
def Placed.le (p q : Placed) : Bool :=
  p.edit.offset < q.edit.offset
    || (p.edit.offset == q.edit.offset
      && (p.phase.index < q.phase.index
        || (p.phase == q.phase && decide (p.tiebreak ≤ q.tiebreak))))

/-- The edit of an insertion. -/
def placeInsertion (within : Option ScopeId) (i : Insertion) : Placed :=
  let text := String.join (i.pieces.map (d.pieceText within))
  ⟨i.phase, tiebreak i.phase i.rank, ⟨i.offset, i.offset, text.toList⟩⟩

/-- The edit that makes a captured reference a look-up. -/
def placeReference (r : Reference) : Placed :=
  let lookup := scopeLookup r.name
  let text := if r.shorthand then r.name ++ ": " ++ lookup else lookup
  ⟨.replace, 0, ⟨r.span.start, r.span.stop, text.toList⟩⟩

/-- An insertion belongs to the inside of a construct. -/
def appliesIn (rec : Recording) (i : Insertion) : Bool :=
  decide (rec.span.start ≤ i.owner.start ∧ i.owner.stop ≤ rec.span.stop ∧ rec.rank < i.rank)

/-- The edits of the whole script, in order. -/
def scriptEdits (insertions : List Insertion) : List Edit :=
  ((insertions.map (d.placeInsertion none)).mergeSort Placed.le).map (·.edit)

/-- The edits of the recorded source of a construct, in order. -/
def recordEdits (rec : Recording) (insertions : List Insertion) : List Edit :=
  -- the construct's own texts have its rank or a lower one and stay out
  let inner := (insertions.filter (appliesIn rec)).map (d.placeInsertion (some rec.scope))
  let lookups := (d.analysis.captured rec.id rec.span).map placeReference
  ((inner ++ lookups).mergeSort Placed.le).map (·.edit)

/-- The recorded source of a construct, given the insertions made inside of it. -/
def recordedSource (id : NodeId) (span : Span) (rank : Nat) (insertions : List Insertion) :
    String :=
  match d.analysis.constructScope? id with
  | none => String.ofList (d.slice span)
  | some scope =>
    String.ofList
      (editSlice d.source span.start span.stop (d.recordEdits ⟨id, scope, rank, span⟩ insertions))

end Draft

/-- A walk that collects insertions. -/
abbrev Splice := StateM (Array Insertion)

/-- The rank of a text around a whole node. -/
def checkRank (depth : Nat) : Nat := depth * 2

/-- The rank of a registration, inside the check of the same node. -/
def registerRank (depth : Nat) : Nat := depth * 2 + 1

/-- Adds an insertion. -/
def insertText (offset : Nat) (phase : Phase) (rank : Nat) (owner : Span) (pieces : List Piece) :
    Splice Unit :=
  modify (·.push ⟨offset, phase, rank, owner, pieces⟩)

/-- Surrounds a node with texts. -/
def surround (span : Span) (rank : Nat) (opening : String) (closing : List Piece) :
    Splice Unit := do
  insertText span.start .open rank span [.text opening]
  insertText span.stop .close rank span closing

/-- The record of a construct whose inside has been walked through. -/
def recordOf (d : Draft) (id : NodeId) (span : Span) (rank : Nat) (lead : String) :
    Splice Piece := do
  let source := d.recordedSource id span rank (← get).toList
  return .record (d.captures id span) (lead ++ source)

/-- A call of the runtime, up to its first argument. -/
def runtimeCall (method : String) : String :=
  runtimeName ++ "." ++ method ++ "("

/-- What an expression is to the node around it. -/
inductive Role where
  /-- A value, which can be checked. -/
  | operand
  /-- A place that is written to or called. -/
  | target
  /-- What `new` constructs. It binds tighter than a call, so nothing on its chain of members may
  become one. -/
  | callee
deriving DecidableEq, Repr

/-- The role of the object whose member has a role. -/
def Role.ofObject : Role → Role
  | .callee => .callee
  | .operand | .target => .operand

/-- The role of an operand. The type of a name can be asked for even if nothing declares it. -/
def operandRole (op : UnaryOp) (operand : Expr) : Role :=
  match op, operand with
  | .delete, _ => .target
  | .typeOf, .ident .. => .target
  | _, _ => .operand

/-- An expression that may stand as the argument of a check. -/
def Expr.isCheckable : Expr → Bool
  | .scopeLookup .. | .sequence .. => false
  | .call callee _ _ => !isRuntimeCall callee
  | _ => true

/-- Surrounds an expression with a check, where expressions are checked and it can be. -/
def surroundCheck (d : Draft) (depth : Nat) (role : Role) (e : Expr) : Splice Unit := do
  if role == .operand && e.isCheckable && d.wrapExpressions && isBalanced (d.slice e.span) then
    surround e.span (checkRank depth) (runtimeCall "ensureSerializable") [.text ")"]

/-- Surrounds a function or class expression with its registration. -/
def surroundRegistration (d : Draft) (depth : Nat) (method : String) (id : NodeId)
    (node place : Span) : Splice Unit := do
  let record ← recordOf d id node (registerRank depth) ""
  surround place (registerRank depth) (runtimeCall method) [.text ", \x7b ", record, .text " \x7d)"]

/-- Makes a method of an object literal a registered function. -/
def surroundMethod (d : Draft) (depth : Nat) (f : FunctionDef) : Splice Unit := do
  let record ← recordOf d f.id f.span (registerRank depth) "function "
  surround f.span (registerRank depth) (": " ++ runtimeCall "registerFunction" ++ "function ")
    [.text ", \x7b ", record, .text " \x7d)"]

/-- The entry of an accessor in the registration around its literal. -/
def accessorEntry (d : Draft) (depth : Nat) (kind : String) (key : PropertyName)
    (f : FunctionDef) : Splice (List Piece) := do
  match key.static? with
  | none => return []
  | some name =>
    let record ← recordOf d f.id f.span (registerRank depth) "function "
    return [.text ("\x7b key: " ++ quote name ++ ", kind: \"" ++ kind ++ "\", "), record,
      .text " \x7d"]

/-- Entries of a list, the empty ones left out, with commas between them. -/
def joinEntries (entries : List (List Piece)) : List Piece :=
  ((entries.filter (!·.isEmpty)).intersperse [.text ", "]).flatten

/-- Surrounds an object literal with the registration of its accessors, if it has any. -/
def surroundAccessors (depth : Nat) (span : Span) (entries : List Piece) : Splice Unit := do
  if !entries.isEmpty then
    surround span (registerRank depth) (runtimeCall "registerAccessors")
      (.text ", [" :: entries ++ [.text "])"])

/-- Registers a function declaration at the top of its statement list. -/
def hoistRegistration (d : Draft) (depth hoistAt : Nat) (f : FunctionDef) : Splice Unit := do
  match f.name with
  | none => return ()
  | some name =>
    let record ← recordOf d f.id f.span (registerRank depth) ""
    insertText hoistAt .hoist (registerRank depth) f.span
      [.text (runtimeCall "registerFunction" ++ name.name ++ ", \x7b "), record, .text " \x7d); "]

/-- Registers a class declaration right behind itself. -/
def appendRegistration (d : Draft) (depth : Nat) (c : ClassDef) : Splice Unit := do
  match c.name with
  | none => return ()
  | some name =>
    let record ← recordOf d c.id c.span (registerRank depth) ""
    insertText c.span.stop .close (registerRank depth) c.span
      [.text (" " ++ runtimeCall "registerClass" ++ name.name ++ ", \x7b "), record,
        .text " \x7d);"]

/-- The offset behind the opening brace of a block. -/
def Block.inside (b : Block) : Nat := b.span.start + 1

mutual

/-- Walks through an expression inside `depth` nodes. -/
def Expr.splice (d : Draft) (depth : Nat) (role : Role) : Expr → Splice Unit
  | .number value span => surroundCheck d (depth + 1) role (.number value span)
  | .bigint value span => surroundCheck d (depth + 1) role (.bigint value span)
  | .text value span => surroundCheck d (depth + 1) role (.text value span)
  | .bool value span => surroundCheck d (depth + 1) role (.bool value span)
  | .null span => surroundCheck d (depth + 1) role (.null span)
  | .ident name id span => surroundCheck d (depth + 1) role (.ident name id span)
  | .this span => surroundCheck d (depth + 1) role (.this span)
  | .scopeLookup .. => pure ()
  | .array elements span => do
    spliceElements d (depth + 1) elements
    surroundCheck d (depth + 1) role (.array elements span)
  | .object properties span => do
    let entries ← spliceProperties d (depth + 1) properties
    surroundAccessors (depth + 1) span (joinEntries entries)
    surroundCheck d (depth + 1) role (.object properties span)
  | .function f span => do
    f.splice d (depth + 1)
    surroundRegistration d (depth + 1) "registerFunction" f.id f.span span
    surroundCheck d (depth + 1) role (.function f span)
  | .arrow f span => do
    f.splice d (depth + 1)
    surroundRegistration d (depth + 1) "registerFunction" f.id f.span span
    surroundCheck d (depth + 1) role (.arrow f span)
  | .class c span => do
    c.splice d (depth + 1)
    surroundRegistration d (depth + 1) "registerClass" c.id c.span span
    surroundCheck d (depth + 1) role (.class c span)
  | .unary op operand span => do
    operand.splice d (depth + 1) (operandRole op operand)
    surroundCheck d (depth + 1) role (.unary op operand span)
  | .update op before target span => do
    target.splice d (depth + 1) .target
    surroundCheck d (depth + 1) role (.update op before target span)
  | .binary op left right span => do
    left.splice d (depth + 1) .operand
    right.splice d (depth + 1) .operand
    surroundCheck d (depth + 1) role (.binary op left right span)
  | .logical op left right span => do
    left.splice d (depth + 1) .operand
    right.splice d (depth + 1) .operand
    surroundCheck d (depth + 1) role (.logical op left right span)
  | .assign op target value span => do
    target.splice d (depth + 1) .target
    value.splice d (depth + 1) .operand
    surroundCheck d (depth + 1) role (.assign op target value span)
  | .conditional test consequent alternate span => do
    test.splice d (depth + 1) .operand
    consequent.splice d (depth + 1) .operand
    alternate.splice d (depth + 1) .operand
    surroundCheck d (depth + 1) role (.conditional test consequent alternate span)
  | .call callee arguments span => do
    -- neither the call nor anything inside of it is changed
    if isRuntimeCall callee then pure ()
    else
      callee.splice d (depth + 1) .target
      spliceArguments d (depth + 1) arguments
      surroundCheck d (depth + 1) role (.call callee arguments span)
  | .new callee arguments span => do
    callee.splice d (depth + 1) .callee
    spliceArguments d (depth + 1) arguments
    surroundCheck d (depth + 1) role (.new callee arguments span)
  | .member object access span => do
    object.splice d (depth + 1) role.ofObject
    access.splice d (depth + 1)
    surroundCheck d (depth + 1) role (.member object access span)
  | .superMember access span => do
    access.splice d (depth + 1)
    surroundCheck d (depth + 1) role (.superMember access span)
  | .superCall arguments span => do
    spliceArguments d (depth + 1) arguments
    surroundCheck d (depth + 1) role (.superCall arguments span)
  | .sequence items _ => spliceExprs d (depth + 1) items

/-- Walks through an element. -/
def Element.splice (d : Draft) (depth : Nat) : Element → Splice Unit
  | ⟨_, value⟩ => value.splice d depth .operand

/-- Walks through the elements of an array. -/
def spliceElements (d : Draft) (depth : Nat) : List (Option Element) → Splice Unit
  | [] => pure ()
  | none :: rest => spliceElements d depth rest
  | some e :: rest => do e.splice d depth; spliceElements d depth rest

/-- Walks through arguments. -/
def spliceArguments (d : Draft) (depth : Nat) : List Element → Splice Unit
  | [] => pure ()
  | e :: rest => do e.splice d depth; spliceArguments d depth rest

/-- Walks through expressions. -/
def spliceExprs (d : Draft) (depth : Nat) : List Expr → Splice Unit
  | [] => pure ()
  | e :: rest => do e.splice d depth .operand; spliceExprs d depth rest

/-- Walks through an expression that may be absent. -/
def spliceOption (d : Draft) (depth : Nat) (role : Role) : Option Expr → Splice Unit
  | none => pure ()
  | some e => e.splice d depth role

/-- Walks through the name of a member. -/
def Access.splice (d : Draft) (depth : Nat) : Access → Splice Unit
  | .named .. => pure ()
  | .computed key => key.splice d depth .operand

/-- Walks through the name of a property. -/
def PropertyName.splice (d : Draft) (depth : Nat) : PropertyName → Splice Unit
  | .ident _ | .text _ | .number _ => pure ()
  | .computed key => key.splice d depth .operand

/-- Walks through a property; the answer is its entry among the registered accessors. -/
def Property.splice (d : Draft) (depth : Nat) : Property → Splice (List Piece)
  | .keyValue key value shorthand _ => do
    key.splice d depth
    -- a check around the name would make it an expression in the place of a property
    if shorthand then return []
    else
      value.splice d depth .operand
      return []
  | .method key f _ => do
    key.splice d depth
    f.splice d (depth + 1)
    surroundMethod d (depth + 1) f
    return []
  | .getter key f _ => do
    key.splice d depth
    f.splice d (depth + 1)
    accessorEntry d (depth + 1) "get" key f
  | .setter key f _ => do
    key.splice d depth
    f.splice d (depth + 1)
    accessorEntry d (depth + 1) "set" key f
  | .spread value _ => do
    value.splice d depth .operand
    return []

/-- Walks through the properties of an object; the answer has the entries of its accessors. -/
def spliceProperties (d : Draft) (depth : Nat) : List Property → Splice (List (List Piece))
  | [] => pure []
  | p :: rest => do
    let entry ← p.splice d depth
    return entry :: (← spliceProperties d depth rest)

/-- Walks through the defaults and the body of a function. -/
def FunctionDef.splice (d : Draft) (depth : Nat) : FunctionDef → Splice Unit
  | ⟨_, _, _, params, _, body, _, _⟩ => do
    spliceParams d depth params
    body.splice d depth

/-- Walks through the defaults of parameters. -/
def spliceParams (d : Draft) (depth : Nat) : List Param → Splice Unit
  | [] => pure ()
  | p :: rest => do p.splice d depth; spliceParams d depth rest

/-- Walks through the default of a parameter. -/
def Param.splice (d : Draft) (depth : Nat) : Param → Splice Unit
  | ⟨_, value⟩ => spliceOption d depth .operand value

/-- Walks through the body of a function. -/
def FunctionBody.splice (d : Draft) (depth : Nat) : FunctionBody → Splice Unit
  | .block b => b.splice d depth
  | .expr value => value.splice d depth .operand

/-- Walks through a class. Its members are registered together with it. -/
def ClassDef.splice (d : Draft) (depth : Nat) : ClassDef → Splice Unit
  | ⟨_, _, superClass, constructor, members, _, _⟩ => do
    spliceOption d depth .operand superClass
    spliceConstructor d (depth + 1) constructor
    spliceMembers d depth members

/-- Walks through a constructor that may be absent. -/
def spliceConstructor (d : Draft) (depth : Nat) : Option FunctionDef → Splice Unit
  | none => pure ()
  | some f => f.splice d depth

/-- Walks through the members of a class. -/
def spliceMembers (d : Draft) (depth : Nat) : List ClassMember → Splice Unit
  | [] => pure ()
  | m :: rest => do m.splice d depth; spliceMembers d depth rest

/-- Walks through a member of a class. -/
def ClassMember.splice (d : Draft) (depth : Nat) : ClassMember → Splice Unit
  | ⟨key, _, kind, _⟩ => do key.splice d depth; kind.splice d depth

/-- Walks through what a member is. -/
def MemberKind.splice (d : Draft) (depth : Nat) : MemberKind → Splice Unit
  | .method f => f.splice d (depth + 1)
  | .getter f => f.splice d (depth + 1)
  | .setter f => f.splice d (depth + 1)
  | .field value _ => spliceOption d depth .operand value

/-- Walks through a block, whose function declarations are registered behind its brace. -/
def Block.splice (d : Draft) (depth : Nat) : Block → Splice Unit
  | ⟨body, span, id⟩ => spliceStatements d depth (Block.inside ⟨body, span, id⟩) body

/-- Walks through a block that may be absent. -/
def spliceBlock (d : Draft) (depth : Nat) : Option Block → Splice Unit
  | none => pure ()
  | some b => b.splice d depth

/-- Walks through statements whose function declarations are registered at `hoistAt`. -/
def spliceStatements (d : Draft) (depth hoistAt : Nat) : List Statement → Splice Unit
  | [] => pure ()
  | s :: rest => do s.splice d depth hoistAt; spliceStatements d depth hoistAt rest

/-- Walks through a declaration. -/
def VariableDecl.splice (d : Draft) (depth : Nat) : VariableDecl → Splice Unit
  | ⟨_, declarators, _⟩ => spliceDeclarators d depth declarators

/-- Walks through the variables of a declaration. -/
def spliceDeclarators (d : Draft) (depth : Nat) : List Declarator → Splice Unit
  | [] => pure ()
  | x :: rest => do x.splice d depth; spliceDeclarators d depth rest

/-- Walks through the value of a variable. -/
def Declarator.splice (d : Draft) (depth : Nat) : Declarator → Splice Unit
  | ⟨_, value⟩ => spliceOption d depth .operand value

/-- Walks through the start of a `for`. -/
def ForInit.splice (d : Draft) (depth : Nat) : ForInit → Splice Unit
  | .declaration decl => decl.splice d depth
  | .expr value => value.splice d depth .target

/-- Walks through the start of a `for` that may be absent. -/
def spliceForInit (d : Draft) (depth : Nat) : Option ForInit → Splice Unit
  | none => pure ()
  | some i => i.splice d depth

/-- Walks through a `catch` part. -/
def CatchClause.splice (d : Draft) (depth : Nat) : CatchClause → Splice Unit
  | ⟨_, body, _⟩ => body.splice d depth

/-- Walks through a `catch` part that may be absent. -/
def spliceHandler (d : Draft) (depth : Nat) : Option CatchClause → Splice Unit
  | none => pure ()
  | some c => c.splice d depth

/-- Walks through an `else` part. -/
def spliceAlternate (d : Draft) (depth hoistAt : Nat) : Option Statement → Splice Unit
  | none => pure ()
  | some s => s.splice d depth hoistAt

/-- Walks through a statement inside `depth` nodes. -/
def Statement.splice (d : Draft) (depth hoistAt : Nat) : Statement → Splice Unit
  | .declaration decl => decl.splice d (depth + 1)
  | .function f => do
    f.splice d (depth + 1)
    hoistRegistration d (depth + 1) hoistAt f
  | .class c => do
    c.splice d (depth + 1)
    appendRegistration d (depth + 1) c
  | .expr value _ => value.splice d (depth + 1) .target
  | .ret value _ => spliceOption d (depth + 1) .operand value
  | .cond test consequent alternate _ => do
    test.splice d (depth + 1) .operand
    consequent.splice d (depth + 1) hoistAt
    spliceAlternate d (depth + 1) hoistAt alternate
  | .while test body _ => do
    test.splice d (depth + 1) .operand
    body.splice d (depth + 1) hoistAt
  | .for start test update body _ _ => do
    spliceForInit d (depth + 1) start
    spliceOption d (depth + 1) .operand test
    spliceOption d (depth + 1) .target update
    body.splice d (depth + 1) hoistAt
  | .block b => b.splice d (depth + 1)
  | .throw value _ => value.splice d (depth + 1) .operand
  | .try block handler finalizer _ => do
    block.splice d (depth + 1)
    spliceHandler d (depth + 1) handler
    spliceBlock d (depth + 1) finalizer
  | .break _ | .continue _ | .empty _ => pure ()

end

/-- All texts to insert into a script. -/
def insertions (d : Draft) (p : Program) : List Insertion :=
  ((spliceStatements d 0 0 p.body).run #[]).2.toList

/-- Instruments a script. -/
def instrument (source : String) (wrapExpressions : Bool) : Except SourceError String := do
  let p ← parseScript source instrumentLabel
  let d : Draft := ⟨source.toList, analyze p, wrapExpressions⟩
  let text := editSlice d.source 0 (byteLength d.source) (d.scriptEdits (insertions d p))
  return String.ofList text

end Stasis.Script
