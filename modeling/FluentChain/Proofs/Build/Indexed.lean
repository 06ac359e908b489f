import FluentChain.Proofs.Build.Operation
import FluentChain.Proofs.Type.Indexed

/-!
# Building programs with indexes

Files, types and symbols are found by indexes, which the steps that build a program read and write beside the lists that
they are indexes of (`IndexedProgram`).  To declare a method takes several writes behind a step that may fail.

Each step keeps all indexes in step and does to the program what the step of `Build` does, which searches; it also
returns the same and fails alike.  So an operation leads to the same program, and any number of them do
(`IndexedProgram.InStep.afterAll`).
-/

namespace FluentChain

/-- A program with its indexes: the numbers of the files by name, the types, and the symbols by key. -/
structure IndexedProgram where
  files : Array SourceFile := #[]
  fileIds : Index String := ∅
  nodes : Array NodeData := #[]
  types : IndexedTypes := {}
  objects : Array Object := #[]
  objectKeys : Index String := ∅

/-- The program without its indexes. -/
def IndexedProgram.program (s : IndexedProgram) : Program := ⟨s.files, s.nodes, s.types.toTypeTable, s.objects⟩

abbrev IndexedBuild := EStateM LoadError IndexedProgram

namespace IndexedBuild

/-! ### Files -/

/-- The number of a file, which is registered and entered if it is new. -/
def file (name : String) : IndexedBuild FileId :=
  modifyGet fun s =>
    match s.fileIds.lookup name with
    | some id => (id, s)
    | none => (s.files.size,
        { s with files := s.files.push ⟨name, []⟩, fileIds := s.fileIds.insert name s.files.size })

def pushDecl (file : FileId) (decl : NodeId) : IndexedBuild Unit :=
  modify fun s => { s with files := s.files.modify file fun f => { f with decls := f.decls ++ [decl] } }

def position (text : String) (inherited : Option FileId) : IndexedBuild Pos :=
  match WrittenPos.parse? text with
  | none => throw (.badPosition text)
  | some ⟨some name, line, col⟩ => return ⟨← file name, line, col⟩
  | some ⟨none, line, col⟩ =>
    match inherited with
    | some file => return ⟨file, line, col⟩
    | none => throw (.badPosition text)

/-! ### Types -/

/-- A step on the types and their indexes alone. -/
def onTypes {α : Type} (step : IndexedTypes → α × IndexedTypes) : IndexedBuild α :=
  modifyGet fun s =>
    let (a, types) := step s.types
    (a, { s with types })

def declareType (name : String) (pos : Option Pos) : IndexedBuild TypeId := onTypes (·.declare name pos)

def intern (ty : Ty) : IndexedBuild TypeId := onTypes (·.intern ty)

/-- The type that a type expression stands for.  What was added before an error stays, in the indexes as well. -/
def parseType (text : String) : IndexedBuild TypeId := fun s =>
  match (TypeExpr.parse text.toList).resolveIndexed s.types with
  | .ok id types => .ok id { s with types }
  | .error e types => .error (.badType e) { s with types }

def signature (sig : Signature) : IndexedBuild TypeId := onTypes (·.push (.signature sig))

def setUnderlying (id underlying : TypeId) : IndexedBuild Unit := do
  let types := (← get).types
  match types.decl? id with
  | none => throw (.badReceiver (types.display id))
  | some decl =>
    if decl.underlying.isSome then throw (.conflictingType (types.display id))
    else modify fun s =>
      { s with types := s.types.modifyDecl id fun d => { d with underlying := some underlying } }

def defineStruct (id : TypeId) (fields : List Field) : IndexedBuild Unit := do
  setUnderlying id (← onTypes (·.push (.struct fields)))

/-! ### Symbols -/

/-- Declares a symbol and enters its key, if the key is not taken yet. -/
def object (obj : Object) : IndexedBuild ObjId := do
  let s ← get
  match s.objectKeys.lookup obj.key with
  | some _ => throw (.duplicateObject obj.key)
  | none =>
    set { s with objects := s.objects.push obj, objectKeys := s.objectKeys.insert obj.key s.objects.size }
    return s.objects.size

/-- Declares a method: a symbol without a receiver, which is then given its receiver and comes to the methods of the
named type. -/
def method (recv : TypeId) (name : String) (sig : TypeId) : IndexedBuild ObjId := do
  let types := (← get).types
  match types.methodOwner? recv with
  | none => throw (.badReceiver (types.display recv))
  | some owner =>
    let id ← object ⟨Build.methodKey types.toTypeTable recv name, name, .method, some sig, none, none⟩
    modify fun s => { s with objects := s.objects.modify id fun obj => { obj with recv := some recv } }
    modify fun s => { s with types := s.types.modifyDecl owner fun d => { d with methods := d.methods ++ [id] } }
    return id

/-! ### Syntax -/

/-- A step that reads the program and changes nothing but its nodes, which have no index. -/
def onNodes {α : Type} (m : Build α) : IndexedBuild α := fun s =>
  match m s.program with
  | .ok a p => .ok a { s with nodes := p.nodes }
  | .error e p => .error e { s with nodes := p.nodes }

def literal (kind : LiteralKind) (raw : String) (pos : Pos) : IndexedBuild NodeId := do
  let type ← intern (.basic (Build.literalType kind))
  onNodes (Build.addNode (.literal kind raw) pos (some type))

/-- The type of `op x`, where `x` has a type. -/
def unaryType (op : String) (type : TypeId) : IndexedBuild (Option TypeId) := do
  if op = "&" then return some (← intern (.pointer type))
  else if op = "*" then
    match (← get).types.get? type with
    | some (.pointer elem) => return some elem
    | _ => return none
  else return some type

def unary (op : String) (x : NodeId) (pos : Pos) : IndexedBuild NodeId := do
  let type ← match (← get).program.type? x with
    | some type => unaryType op type
    | none => pure none
  onNodes (Build.addNode (.unary op x) pos type)

/-- The program with its indexes after a step, where it fails as well. -/
def stateAfter {α : Type} (m : IndexedBuild α) (s : IndexedProgram) : IndexedProgram :=
  match m s with
  | .ok _ t | .error _ t => t

end IndexedBuild

namespace IndexedProgram

/-- The program with its indexes that an operation leads to. -/
def after (s : IndexedProgram) : Build.Operation → IndexedProgram
  | .file name => IndexedBuild.stateAfter (IndexedBuild.file name) s
  | .pushDecl id decl => IndexedBuild.stateAfter (IndexedBuild.pushDecl id decl) s
  | .position text inherited => IndexedBuild.stateAfter (IndexedBuild.position text inherited) s
  | .declareType name pos => IndexedBuild.stateAfter (IndexedBuild.declareType name pos) s
  | .intern ty => IndexedBuild.stateAfter (IndexedBuild.intern ty) s
  | .parseType text => IndexedBuild.stateAfter (IndexedBuild.parseType text) s
  | .signature sig => IndexedBuild.stateAfter (IndexedBuild.signature sig) s
  | .setUnderlying id underlying => IndexedBuild.stateAfter (IndexedBuild.setUnderlying id underlying) s
  | .defineStruct id fields => IndexedBuild.stateAfter (IndexedBuild.defineStruct id fields) s
  | .object key name kind type pos =>
    IndexedBuild.stateAfter (IndexedBuild.object ⟨key, name, kind, type, none, pos⟩) s
  | .method recv name sig => IndexedBuild.stateAfter (IndexedBuild.method recv name sig) s
  | .setType n type => IndexedBuild.stateAfter (IndexedBuild.onNodes (Build.setType n type)) s
  | .ident name obj isDef pos => IndexedBuild.stateAfter (IndexedBuild.onNodes (Build.ident name obj isDef pos)) s
  | .selector x sel => IndexedBuild.stateAfter (IndexedBuild.onNodes (Build.selector x sel)) s
  | .call callee args spread => IndexedBuild.stateAfter (IndexedBuild.onNodes (Build.call callee args spread)) s
  | .composite type elts pos => IndexedBuild.stateAfter (IndexedBuild.onNodes (Build.composite type elts pos)) s
  | .keyValue key value => IndexedBuild.stateAfter (IndexedBuild.onNodes (Build.keyValue key value)) s
  | .literal kind raw pos => IndexedBuild.stateAfter (IndexedBuild.literal kind raw pos) s
  | .unary op x pos => IndexedBuild.stateAfter (IndexedBuild.unary op x pos) s
  | .block stmts pos => IndexedBuild.stateAfter (IndexedBuild.onNodes (Build.block stmts pos)) s
  | .assign lhs rhs define => IndexedBuild.stateAfter (IndexedBuild.onNodes (Build.assign lhs rhs define)) s
  | .valueDecl names values => IndexedBuild.stateAfter (IndexedBuild.onNodes (Build.valueDecl names values)) s
  | .other label children pos => IndexedBuild.stateAfter (IndexedBuild.onNodes (Build.other label children pos)) s

/-- The program with its indexes after some operations, done one after another. -/
def afterAll (s : IndexedProgram) (ops : List Build.Operation) : IndexedProgram := ops.foldl after s

/-- Each index has the names or keys of what it is an index of, and no others. -/
structure InStep (s : IndexedProgram) : Prop where
  fileIds : s.fileIds.Tracks (fun file => some file.name) s.files
  types : s.types.InStep
  objectKeys : s.objectKeys.Tracks (fun obj => some obj.key) s.objects

theorem inStep_empty : InStep {} := ⟨Index.tracks_empty _, IndexedTypes.inStep_empty, Index.tracks_empty _⟩

variable {s : IndexedProgram}

theorem program_types (s : IndexedProgram) : s.program.types = s.types.toTypeTable := rfl

/-- A name is found in the index of the files just where a search of the files finds it. -/
theorem InStep.lookup_fileIds (h : s.InStep) (name : String) :
    s.fileIds.lookup name = s.files.findIdx? (·.name == name) :=
  h.fileIds.lookup_eq_findIdx? fun file => by rw [beq_iff_eq, Option.some_inj]

/-- The index of the symbols and the symbols are inverse to each other. -/
theorem InStep.lookup_objectKeys_iff (h : s.InStep) (key : String) (o : ObjId) :
    s.objectKeys.lookup key = some o ↔ s.program.key? o = some key := by
  rw [h.objectKeys key o, Program.key?, Option.map_eq_bind]
  rfl

/-- A key is found in the index of the symbols just where a search of the symbols finds it. -/
theorem InStep.lookup_objectKeys (h : s.InStep) (key : String) :
    s.objectKeys.lookup key = s.program.lookupObject? key :=
  h.objectKeys.lookup_eq_findIdx? fun obj => by rw [beq_iff_eq, Option.some_inj]

end IndexedProgram

namespace IndexedBuild

open IndexedProgram (program InStep)

variable {s : IndexedProgram}

/-! ### Steps in step -/

theorem mirrors_file (name : String) : Mirrors program InStep (file name) (Build.file name) := by
  refine .modifyGet fun s h => ?_
  have hsearch : s.fileIds.lookup name = s.program.files.findIdx? (·.name == name) := h.lookup_fileIds name
  simp only [← hsearch]
  cases hlookup : s.fileIds.lookup name with
  | some id => exact ⟨h, rfl⟩
  | none => exact ⟨⟨h.fileIds.push hlookup rfl, h.types, h.objectKeys⟩, rfl⟩

theorem mirrors_pushDecl (id : FileId) (decl : NodeId) :
    Mirrors program InStep (pushDecl id decl) (Build.pushDecl id decl) :=
  .modifyGet fun _ h => ⟨⟨h.fileIds.modify id fun _ => rfl, h.types, h.objectKeys⟩, rfl⟩

theorem mirrors_position (text : String) (inherited : Option FileId) :
    Mirrors program InStep (position text inherited) (Build.position text inherited) := by
  unfold position Build.position
  rcases WrittenPos.parse? text with _ | ⟨_ | name, line, col⟩
  · exact .throw _
  · cases inherited with
    | none => exact .throw _
    | some file => exact .pure _
  · exact (mirrors_file name).bind fun _ => .pure _

theorem mirrors_onTypes {α : Type} {step : IndexedTypes → α × IndexedTypes} {step' : TypeTable → α × TypeTable}
    (hstep : IndexedTypes.Performs step step') : Mirrors program InStep (onTypes step) (Build.onTypes step') := by
  refine .modifyGet fun s h => ?_
  obtain ⟨hinStep, heq⟩ := hstep s.types h.types
  have heq' : step' s.program.types = _ := heq
  simp only [heq']
  exact ⟨⟨h.fileIds, hinStep, h.objectKeys⟩, rfl⟩

theorem mirrors_intern {ty : Ty} (hty : ty.IsShared) : Mirrors program InStep (intern ty) (Build.intern ty) :=
  mirrors_onTypes (IndexedTypes.performs_intern hty)

theorem mirrors_parseType (text : String) : Mirrors program InStep (parseType text) (Build.parseType text) := by
  intro s h
  have hends := IndexedTypes.mirrors_resolve (TypeExpr.parse text.toList) s.types h.types
  unfold parseType Build.parseType TypeTable.parse
  revert hends
  show EndsAs _ _ _ ((TypeExpr.parse text.toList).resolve s.program.types) → _
  cases (TypeExpr.parse text.toList).resolveIndexed s.types <;>
    cases (TypeExpr.parse text.toList).resolve s.program.types <;> rintro (⟨htypes, rfl⟩ | ⟨htypes, rfl⟩)
  · exact .ok ⟨h.fileIds, htypes, h.objectKeys⟩ rfl
  · exact .error ⟨h.fileIds, htypes, h.objectKeys⟩ rfl

theorem run_setUnderlying (id underlying : TypeId) (s : IndexedProgram) :
    setUnderlying id underlying s = match s.types.decl? id with
      | none => .error (.badReceiver (s.types.display id)) s
      | some decl =>
        if decl.underlying.isSome then .error (.conflictingType (s.types.display id)) s
        else .ok () { s with types := s.types.modifyDecl id fun d => { d with underlying := some underlying } } := by
  rw [setUnderlying, FluentChain.get_bind]
  cases s.types.decl? id with
  | none => rfl
  | some decl =>
    dsimp only
    split <;> rfl

theorem mirrors_setUnderlying (id underlying : TypeId) :
    Mirrors program InStep (setUnderlying id underlying) (Build.setUnderlying id underlying) := by
  intro s h
  rw [run_setUnderlying, Build.run_setUnderlying, IndexedProgram.program_types]
  cases s.types.decl? id with
  | none => exact .error h rfl
  | some decl =>
    dsimp only
    split
    · exact .error h rfl
    · exact .ok ⟨h.fileIds, h.types.modifyDecl id fun _ => rfl, h.objectKeys⟩ rfl

theorem mirrors_defineStruct (id : TypeId) (fields : List Field) :
    Mirrors program InStep (defineStruct id fields) (Build.defineStruct id fields) :=
  (mirrors_onTypes (IndexedTypes.performs_push rfl rfl)).bind fun _ => mirrors_setUnderlying id _

theorem run_object (obj : Object) (s : IndexedProgram) :
    object obj s = match s.objectKeys.lookup obj.key with
      | some _ => .error (.duplicateObject obj.key) s
      | none => .ok s.objects.size
        { s with objects := s.objects.push obj, objectKeys := s.objectKeys.insert obj.key s.objects.size } := by
  rw [object, FluentChain.get_bind]
  cases s.objectKeys.lookup obj.key <;> rfl

theorem mirrors_object (obj : Object) : Mirrors program InStep (object obj) (Build.object obj) := by
  intro s h
  rw [run_object, Build.run_object, ← h.lookup_objectKeys]
  cases hlookup : s.objectKeys.lookup obj.key with
  | some o => exact .error h rfl
  | none => exact .ok ⟨h.fileIds, h.types, h.objectKeys.push hlookup rfl⟩ rfl

/-- A method that is declared is entered with its key, under the number that it has; its receiver is given to it when it
has been added, as if it had been added with it. -/
theorem run_method (recv : TypeId) (name : String) (sig : TypeId) (s : IndexedProgram) :
    method recv name sig s = match s.types.methodOwner? recv with
      | none => .error (.badReceiver (s.types.display recv)) s
      | some owner =>
        match s.objectKeys.lookup (Build.methodKey s.types.toTypeTable recv name) with
        | some _ => .error (.duplicateObject (Build.methodKey s.types.toTypeTable recv name)) s
        | none => .ok s.objects.size { s with
            objects := s.objects.push
              ⟨Build.methodKey s.types.toTypeTable recv name, name, .method, some sig, some recv, none⟩
            objectKeys := s.objectKeys.insert (Build.methodKey s.types.toTypeTable recv name) s.objects.size
            types := s.types.modifyDecl owner fun d => { d with methods := d.methods ++ [s.objects.size] } } := by
  rw [method, FluentChain.get_bind]
  cases s.types.methodOwner? recv with
  | none => rfl
  | some owner =>
    have hrun := run_object ⟨Build.methodKey s.types.toTypeTable recv name, name, .method, some sig, none, none⟩ s
    cases hkey : s.objectKeys.lookup (Build.methodKey s.types.toTypeTable recv name) with
    | some o =>
      simp only [hkey] at hrun
      exact bind_of_error hrun
    | none =>
      simp only [hkey] at hrun
      refine (bind_of_ok hrun).trans ?_
      exact congrArg (fun objects => EStateM.Result.ok s.objects.size { s with
        objects := objects
        objectKeys := s.objectKeys.insert (Build.methodKey s.types.toTypeTable recv name) s.objects.size
        types := s.types.modifyDecl owner fun d => { d with methods := d.methods ++ [s.objects.size] } })
        (modify_push s.objects _ fun obj => { obj with recv := some recv })

theorem mirrors_method (recv : TypeId) (name : String) (sig : TypeId) :
    Mirrors program InStep (method recv name sig) (Build.method recv name sig) := by
  intro s h
  rw [run_method, Build.run_method, IndexedProgram.program_types]
  cases s.types.methodOwner? recv with
  | none => exact .error h rfl
  | some owner =>
    simp only [← h.lookup_objectKeys]
    cases hkey : s.objectKeys.lookup (Build.methodKey s.types.toTypeTable recv name) with
    | some o => exact .error h rfl
    | none => exact .ok ⟨h.fileIds, h.types.modifyDecl owner fun _ => rfl, h.objectKeys.push hkey rfl⟩ rfl

/-! ### Steps that fail -/

theorem eq_of_object_eq_error {obj : Object} {e : LoadError} {t : IndexedProgram} (h : object obj s = .error e t) :
    t = s := by
  rw [run_object] at h
  split at h <;> cases h
  rfl

theorem eq_of_method_eq_error {recv sig : TypeId} {name : String} {e : LoadError} {t : IndexedProgram}
    (h : method recv name sig s = .error e t) : t = s := by
  rw [run_method] at h
  split at h
  · cases h
    rfl
  · split at h <;> cases h
    rfl

theorem eq_of_setUnderlying_eq_error {id underlying : TypeId} {e : LoadError} {t : IndexedProgram}
    (h : setUnderlying id underlying s = .error e t) : t = s := by
  rw [run_setUnderlying] at h
  split at h
  · cases h
    rfl
  · split at h <;> cases h
    rfl

/-! ### Syntax in step -/

/-- Steps that only add or change nodes do so whether there are indexes or not. -/
theorem mirrors_onNodes {α : Type} (m : Build α) (hm : ∀ p, ∃ a nodes, m p = .ok a { p with nodes := nodes }) :
    Mirrors program InStep (onNodes m) m := by
  intro s h
  obtain ⟨a, nodes, hrun⟩ := hm s.program
  unfold onNodes
  rw [hrun]
  exact .ok ⟨h.fileIds, h.types, h.objectKeys⟩ rfl

theorem mirrors_addNode (node : Node) (pos : Pos) (type : Option TypeId) :
    Mirrors program InStep (onNodes (Build.addNode node pos type)) (Build.addNode node pos type) :=
  mirrors_onNodes _ fun _ => ⟨_, _, rfl⟩

theorem mirrors_literal (kind : LiteralKind) (raw : String) (pos : Pos) :
    Mirrors program InStep (literal kind raw pos) (Build.literal kind raw pos) :=
  .bind (mirrors_intern trivial) fun _ => mirrors_addNode _ _ _

theorem mirrors_unaryType (op : String) (type : TypeId) :
    Mirrors program InStep (unaryType op type) (Build.unaryType op type) := by
  unfold unaryType Build.unaryType
  split
  · exact .bind (mirrors_intern trivial) fun _ => .pure _
  · split
    · refine .get_bind fun s h => ?_
      simp only [IndexedProgram.program_types]
      cases s.types.get? type with
      | none => exact .ok h rfl
      | some ty => cases ty <;> exact .ok h rfl
    · exact .pure _

theorem mirrors_unary (op : String) (x : NodeId) (pos : Pos) :
    Mirrors program InStep (unary op x pos) (Build.unary op x pos) := by
  refine .get_bind fun s h => ?_
  cases s.program.type? x with
  | none => exact mirrors_addNode _ _ _ s h
  | some type => exact (mirrors_unaryType op type).bind (fun _ => mirrors_addNode _ _ _) s h

/-! ### Operations -/

theorem stateAfter_mirrors {α : Type} {m : IndexedBuild α} {m' : Build α} (hm : Mirrors program InStep m m')
    (h : s.InStep) : (stateAfter m s).InStep ∧ (stateAfter m s).program = Build.stateAfter m' s.program := by
  have hends := hm s h
  unfold stateAfter Build.stateAfter
  cases hrun : m s <;> cases hrun' : m' s.program <;> rw [hrun, hrun'] at hends
  · cases hends with
    | ok hs ht => exact ⟨hs, ht⟩
  · cases hends
  · cases hends
  · cases hends with
    | error hs ht => exact ⟨hs, ht⟩

end IndexedBuild

namespace IndexedProgram

open Build IndexedBuild

variable {s : IndexedProgram}

/-- An operation keeps the indexes in step, where it fails as well, and leads to the program that it leads to without
them. -/
theorem InStep.after (h : s.InStep) {op : Build.Operation} (hop : op.Fits s.program) :
    (s.after op).InStep ∧ (s.after op).program = op.after s.program := by
  cases op with
  | file name => exact stateAfter_mirrors (mirrors_file name) h
  | pushDecl id decl => exact stateAfter_mirrors (mirrors_pushDecl id decl) h
  | position text inherited => exact stateAfter_mirrors (mirrors_position text inherited) h
  | declareType name pos => exact stateAfter_mirrors (mirrors_onTypes (IndexedTypes.performs_declare name pos)) h
  | intern ty => exact stateAfter_mirrors (mirrors_intern hop.1) h
  | parseType text => exact stateAfter_mirrors (mirrors_parseType text) h
  | signature sig => exact stateAfter_mirrors (mirrors_onTypes (IndexedTypes.performs_push rfl rfl)) h
  | setUnderlying id underlying => exact stateAfter_mirrors (mirrors_setUnderlying id underlying) h
  | defineStruct id fields => exact stateAfter_mirrors (mirrors_defineStruct id fields) h
  | object key name kind type pos => exact stateAfter_mirrors (mirrors_object _) h
  | method recv name sig => exact stateAfter_mirrors (mirrors_method recv name sig) h
  | literal kind raw pos => exact stateAfter_mirrors (mirrors_literal kind raw pos) h
  | unary op x pos => exact stateAfter_mirrors (mirrors_unary op x pos) h
  | setType n type => exact stateAfter_mirrors (mirrors_onNodes (Build.setType n type) fun _ => ⟨_, _, rfl⟩) h
  | ident name obj isDef pos =>
    exact stateAfter_mirrors (mirrors_onNodes (Build.ident name obj isDef pos) fun _ => ⟨_, _, rfl⟩) h
  | selector x sel => exact stateAfter_mirrors (mirrors_onNodes (Build.selector x sel) fun _ => ⟨_, _, rfl⟩) h
  | call callee args spread =>
    exact stateAfter_mirrors (mirrors_onNodes (Build.call callee args spread) fun _ => ⟨_, _, rfl⟩) h
  | composite type elts pos =>
    exact stateAfter_mirrors (mirrors_onNodes (Build.composite type elts pos) fun _ => ⟨_, _, rfl⟩) h
  | keyValue key value => exact stateAfter_mirrors (mirrors_onNodes (Build.keyValue key value) fun _ => ⟨_, _, rfl⟩) h
  | block stmts pos => exact stateAfter_mirrors (mirrors_onNodes (Build.block stmts pos) fun _ => ⟨_, _, rfl⟩) h
  | assign lhs rhs define =>
    exact stateAfter_mirrors (mirrors_onNodes (Build.assign lhs rhs define) fun _ => ⟨_, _, rfl⟩) h
  | valueDecl names values =>
    exact stateAfter_mirrors (mirrors_onNodes (Build.valueDecl names values) fun _ => ⟨_, _, rfl⟩) h
  | other label children pos =>
    exact stateAfter_mirrors (mirrors_onNodes (Build.other label children pos) fun _ => ⟨_, _, rfl⟩) h

theorem InStep.afterAll (h : s.InStep) {ops : List Build.Operation} (hops : Operation.FitAll ops s.program) :
    (s.afterAll ops).InStep ∧ (s.afterAll ops).program = Operation.afterAll ops s.program := by
  induction ops generalizing s with
  | nil => exact ⟨h, rfl⟩
  | cons op ops ih =>
    obtain ⟨hstep, hprogram⟩ := h.after hops.1
    have hrest := ih hstep (hprogram ▸ hops.2)
    rw [hprogram] at hrest
    exact hrest

end IndexedProgram

end FluentChain
