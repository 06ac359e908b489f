import FluentChain.Chain.Environment
import FluentChain.Chain.Reference
import FluentChain.Diagnostic.Basic
import FluentChain.Text.Literal

/-!
# Walking chains

The walk goes over syntax from the left and from the top.  It finds the context of every method call
(`Walk.resolveCall`): that of its receiver, which is another call or a variable, changed as the role of the
method says.  Field references in the arguments are examined against the record that the receiver points at.
Contexts of method calls are kept, so a call is examined once however often it is reached.

Assignments bind their targets to the contexts of their values before the walk goes on to their parts, and what
is bound in a block is forgotten after it.
-/

namespace FluentChain

/-- Why an argument opens no chain. -/
inductive EntryFlaw
  | noArgument
  | untyped
  | notARecord (type : String)
deriving DecidableEq, Repr

def EntryFlaw.text : EntryFlaw → String
  | .noArgument => "no argument"
  | .untyped => "argument has no type"
  | .notARecord type => "got " ++ type

/-- What a walk cannot go on past. -/
inductive CheckError
  | badEntry (pos : Pos) (flaw : EntryFlaw)
  | undecodableLiteral (pos : Pos) (raw : String)
deriving DecidableEq, Repr

def CheckError.message (p : Program) : CheckError → String
  | .badEntry pos flaw =>
    p.displayPos pos ++ ": entry call needs a struct value argument (" ++ flaw.text ++ ")"
  | .undecodableLiteral pos raw => p.displayPos pos ++ ": cannot decode string literal " ++ raw

/-- A method call whose context is known, with the context that its receiver had. -/
structure Resolution where
  call : NodeId
  receiver : ChainContext
  context : ChainContext
deriving DecidableEq, Repr

/-- The method calls met so far, latest first, and what was found in them. -/
structure WalkState where
  resolutions : List Resolution := []
  diagnostics : Diagnostics := {}
deriving DecidableEq, Repr

/-- The contexts of the method calls met so far. -/
def WalkState.memo (s : WalkState) : List (NodeId × ChainContext) :=
  s.resolutions.map fun r => (r.call, r.context)

abbrev Walk := EStateM CheckError WalkState

/-- The receiver, the method name and the arguments of a call of the form `recv.Method(...)`. -/
def Program.methodCall? (p : Program) (n : NodeId) : Option (NodeId × NodeId × List NodeId) :=
  match p.node? n with
  | some (.call callee args _) =>
    match p.node? callee with
    | some (.selector recv sel) => some (recv, sel, args)
    | _ => none
  | _ => none

def Program.isCall (p : Program) (n : NodeId) : Bool :=
  match p.node? n with
  | some (.call ..) => true
  | _ => false

/-- The context of the variable that an expression names. -/
def Environment.contextOf (env : Environment) (p : Program) (n : NodeId) : ChainContext :=
  ((p.identObject? n).bind env.lookup?).getD .untracked

namespace Walk

variable (p : Program) (roles : RoleTable)

/-! ### Examining field references -/

def mark (n : NodeId) : Walk Unit :=
  modify fun s => { s with diagnostics := s.diagnostics.mark n }

def report (n : NodeId) (d : Diagnostic) : Walk Unit :=
  modify fun s => { s with diagnostics := s.diagnostics.push n d }

/-- Reports that a record has no field table, once for an expression. -/
def reportTable (n : NodeId) (error : FieldTableError) : Walk Unit := do
  let d : Diagnostic := ⟨.noTable error, error.pos.getD (p.pos n), error.reference⟩
  if d ∈ (← get).diagnostics.foundAt n then return () else report n d

/-- The declaration of a record type. -/
def declaredAt (record : TypeId) : Option Pos := (p.types.decl? record).bind (·.pos)

def fieldTable (record : TypeId) : Except FieldTableError FieldTable :=
  FieldTable.ofType p.types roles.tag record

def decodeLiteral (n : NodeId) (raw : String) : Walk String :=
  match Text.decodeLiteral raw with
  | some text => return text
  | none => throw (.undecodableLiteral (p.pos n) raw)

/-- The argument of a field offset where it is a selector, and the two parts of the selector. -/
def offsetSelector? (args : List NodeId) : Option (NodeId × NodeId × NodeId) := do
  let arg ← args.head?
  match p.node? arg with
  | some (.selector x sel) => some (arg, x, sel)
  | _ => none

/-- The record type that an expression refers to. -/
def recordOf? (x : NodeId) : Option TypeId := (p.type? x).bind p.types.recordType?

/-- Examines a field reference against a record. -/
def checkReference (record : TypeId) (n : NodeId) : Walk Unit := do
  match roles.reference? p n with
  | some (.named raw) =>
    mark n
    match fieldTable p roles record with
    | .error e => reportTable p n e
    | .ok table =>
      let name ← decodeLiteral p n raw
      if (table.get? name).isNone then
        report n ⟨.fieldNotFound, p.pos n, declaredAt p record⟩
  | some (.offset args) =>
    mark n
    match offsetSelector? p args with
    | some (arg, x, _) =>
      if recordOf? p x ≠ some record then
        report n ⟨.typeMismatch, p.pos arg, declaredAt p record⟩
    | none => return ()
  | none => return ()

/-- Examines all field references in some arguments. -/
def checkArguments (record : TypeId) (args : List NodeId) : Walk Unit :=
  (args.flatMap (roles.references p)).forM (checkReference p roles record)

/-- The record type of the field that a descend argument selects. -/
def selectRecord (record : TypeId) (n : NodeId) : Walk (Option TypeId) := do
  match roles.reference? p n with
  | some (.named raw) =>
    mark n
    match fieldTable p roles record with
    | .error e =>
      reportTable p n e
      return none
    | .ok table =>
      let name ← decodeLiteral p n raw
      match (table.get? name).bind (·.record) with
      | some target => return some target
      | none =>
        report n ⟨.notAStructField, p.pos n, none⟩
        return none
  | some (.offset args) =>
    mark n
    match offsetSelector? p args with
    | some (arg, _, sel) =>
      match recordOf? p arg with
      | some target => return some target
      | none =>
        report n ⟨.notAStructField, p.pos sel, none⟩
        return none
    | none => return none
  | none => return none

/-! ### Contexts of calls -/

/-- The context that an entry call opens. -/
def openChain (call : NodeId) (args : List NodeId) : Walk ChainContext :=
  let bad (flaw : EntryFlaw) : Walk ChainContext := throw (.badEntry (p.pos call) flaw)
  match args with
  | [] => bad .noArgument
  | arg :: _ =>
    match p.type? arg with
    | none => bad .untyped
    | some type =>
      match p.types.recordType? type with
      | none => bad (.notARecord (p.types.display type))
      | some record => return .entry record

/-- The context of a method call whose receiver has the context `receiver`. -/
def applyRole (role : Option Role) (call : NodeId) (args : List NodeId) (receiver : ChainContext) :
    Walk ChainContext := do
  match role, receiver.top? with
  | some .entry, _ => openChain p call args
  | some .preserve, some record =>
    checkArguments p roles record (roles.fieldArguments p call)
    return receiver
  | some .descend, some record =>
    checkArguments p roles record (roles.fieldArguments p call)
    match args with
    | [] => return .invalid
    | arg :: _ =>
      match ← selectRecord p roles record arg with
      | some target => return receiver.descend target
      | none => return .invalid
  | some .ascend, some _ => return receiver.ascend
  | _, _ => return receiver

def remember (r : Resolution) : Walk Unit :=
  modify fun s => { s with resolutions := r :: s.resolutions }

/-- The role of the method that a name stands for. -/
def roleOfName? (sel : NodeId) : Option Role := (p.identObject? sel).bind roles.roleOf?

/-- Finds the context of a method call from that of its receiver, and keeps it. -/
def settle (call sel : NodeId) (args : List NodeId) (receiver : ChainContext) : Walk ChainContext := do
  let ctx ← applyRole p roles (roleOfName? p roles sel) call args receiver
  remember ⟨call, receiver, ctx⟩
  return ctx

/-- The context of a call.  Only method calls take part in chains. -/
def resolveCall (env : Environment) (call : NodeId) : Walk ChainContext := do
  match p.methodCall? call with
  | none => return .untracked
  | some (recv, sel, args) =>
    match (← get).memo.lookup call with
    | some ctx => return ctx
    | none =>
      let receiver ←
        if p.isCall recv then
          if recv < call then resolveCall env recv else pure .untracked
        else pure (env.contextOf p recv)
      settle p roles call sel args receiver
termination_by call

/-! ### Bindings -/

/-- Whether a value is a call that is known not to have exactly one result. -/
def isMultiResult (value : NodeId) : Bool :=
  p.isCall value && (p.calleeSignature? value).any (·.results.length ≠ 1)

/-- The context of the value of a variable. -/
def valueContext (env : Environment) (value : NodeId) : Walk ChainContext :=
  match p.node? value with
  | some (.call ..) =>
    if p.type? value = some roles.builder then resolveCall p roles env value else return .untracked
  | some (.ident ..) | some (.selector ..) => return env.contextOf p value
  | _ => return .untracked

/-- The variable of a chain that a target names. -/
def boundVariable? (target : NodeId) : Option ObjId :=
  (p.identObject? target).filter fun obj => p.objectType? obj == some roles.builder

def bindTarget (env : Environment) (target value : NodeId) : Walk Environment := do
  if isMultiResult p value then return env
  else match boundVariable? p roles target with
    | none => return env
    | some obj => return env.bind obj (← valueContext p roles env value)

/-- Binds targets to values pair by pair. -/
def bindTargets (env : Environment) (targets values : List NodeId) : Walk Environment :=
  (targets.zip values).foldlM (fun env (target, value) => bindTarget p roles env target value) env

/-! ### The walk -/

/-- What happens at a node before its children are visited; the environment is the one they see. -/
def enter (n : NodeId) (env : Environment) : Walk Environment := do
  match p.node? n with
  | some (.block _) => return env.child
  | some (.assign lhs rhs _) => bindTargets p roles env lhs rhs
  | some (.valueDecl names values) => bindTargets p roles env names values
  | some (.call ..) =>
    let _ ← resolveCall p roles env n
    return env
  | _ => return env

def isBlock (n : NodeId) : Bool :=
  match p.node? n with
  | some (.block _) => true
  | _ => false

/-- Visits a node and all below it; the environment is the one after it. -/
def visit (n : NodeId) (env : Environment) : Walk Environment := do
  let inner ← enter p roles n env
  let after ← (p.subnodes n).foldlM (fun env ⟨c, _⟩ => visit c env) inner
  return if isBlock p n then env else after
termination_by n

/-- Visits all declarations, file by file, each in the environment that the one before leaves. -/
def program : Walk Environment :=
  p.decls.foldlM (fun env n => visit p roles n env) {}

end Walk

end FluentChain
