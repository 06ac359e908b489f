import FluentChain.Program.Basic
import FluentChain.Program.Error
import FluentChain.Text.Quoted
import FluentChain.Type.Display
import FluentChain.Type.Selection

/-!
# Building programs

The steps that grow a program: registering files, declaring types and symbols, and adding syntax nodes.  A step
that fails leaves the program as it was, save for types that a type expression added before it failed and for
the struct that a second definition brings.

A node is given its type when it is added: an identifier has the type of its symbol, a selector that of its
selected name or else of the field it selects, a call the single result of its callee, `&x` the pointer to the
type of `x`, `*x` what the type of `x` points to, a literal the basic type of its kind.  `Build.setType`
replaces it.
-/

namespace FluentChain

abbrev Build := EStateM LoadError Program

namespace Build

/-! ### Files -/

/-- The number of a file, which is registered if it is new. -/
def file (name : String) : Build FileId :=
  modifyGet fun p =>
    match p.files.findIdx? (·.name == name) with
    | some id => (id, p)
    | none => (p.files.size, { p with files := p.files.push ⟨name, []⟩ })

/-- Appends a declaration to a file; an unknown file number is ignored. -/
def pushDecl (file : FileId) (decl : NodeId) : Build Unit :=
  modify fun p =>
    { p with files := p.files.modify file fun f => { f with decls := f.decls ++ [decl] } }

/-- Reads a position; a file it names is registered if it is new, and `inherited` is the file of a position
that names none. -/
def position (text : String) (inherited : Option FileId) : Build Pos :=
  match WrittenPos.parse? text with
  | none => throw (.badPosition text)
  | some ⟨some name, line, col⟩ => return ⟨← file name, line, col⟩
  | some ⟨none, line, col⟩ =>
    match inherited with
    | some file => return ⟨file, line, col⟩
    | none => throw (.badPosition text)

/-! ### Types -/

/-- A step on the type table alone. -/
def onTypes {α : Type} (step : TypeTable → α × TypeTable) : Build α :=
  modifyGet fun p =>
    let (a, types) := step p.types
    (a, { p with types })

def declareType (name : String) (pos : Option Pos) : Build TypeId := onTypes (·.declare name pos)

def intern (ty : Ty) : Build TypeId := onTypes (·.intern ty)

/-- The type that a type expression stands for. -/
def parseType (text : String) : Build TypeId := fun p =>
  match TypeTable.parse text p.types with
  | .ok id types => .ok id { p with types }
  | .error e types => .error (.badType e) { p with types }

/-- Adds a signature; two signatures are never one type. -/
def signature (sig : Signature) : Build TypeId := onTypes (·.push (.signature sig))

/-- Gives a named type its underlying type, which it can be given once. -/
def setUnderlying (id underlying : TypeId) : Build Unit := do
  let types := (← get).types
  match types.decl? id with
  | none => throw (.badReceiver (types.display id))
  | some decl =>
    if decl.underlying.isSome then throw (.conflictingType (types.display id))
    else modify fun p =>
      { p with types := p.types.modifyDecl id fun d => { d with underlying := some underlying } }

/-- Makes a named type a struct. -/
def defineStruct (id : TypeId) (fields : List Field) : Build Unit := do
  setUnderlying id (← onTypes (·.push (.struct fields)))

/-! ### Symbols -/

/-- Declares a symbol under a key that is not taken yet. -/
def object (obj : Object) : Build ObjId := do
  let p ← get
  match p.lookupObject? obj.key with
  | some _ => throw (.duplicateObject obj.key)
  | none =>
    set { p with objects := p.objects.push obj }
    return p.objects.size

/-- The key of a method. -/
def methodKey (types : TypeTable) (recv : TypeId) (name : String) : String :=
  "(" ++ types.display recv ++ ")." ++ name

/-- Declares a method on `T` or `*T` and adds it to the methods of `T`. -/
def method (recv : TypeId) (name : String) (sig : TypeId) : Build ObjId := do
  let types := (← get).types
  match types.methodOwner? recv with
  | none => throw (.badReceiver (types.display recv))
  | some owner =>
    let id ← object ⟨methodKey types recv name, name, .method, some sig, some recv, none⟩
    modify fun p =>
      { p with types := p.types.modifyDecl owner fun d => { d with methods := d.methods ++ [id] } }
    return id

/-! ### Syntax -/

def addNode (node : Node) (pos : Pos) (type : Option TypeId) : Build NodeId :=
  modifyGet fun p => (p.nodes.size, { p with nodes := p.nodes.push ⟨node, pos, type⟩ })

/-- Replaces the type of a node. -/
def setType (n : NodeId) (type : TypeId) : Build Unit :=
  modify fun p => { p with nodes := p.nodes.modify n fun d => { d with type := some type } }

def ident (name : String) (obj : Option ObjId) (isDef : Bool) (pos : Pos) : Build NodeId := do
  let p ← get
  addNode (.ident name obj isDef) pos (obj.bind p.objectType?)

/-- The type of the field that a selector with an untyped name selects. -/
def selectionType? (p : Program) (x sel : NodeId) : Option TypeId :=
  match p.node? sel with
  | some (.ident name _ _) => (p.type? x).bind (p.types.selectField? · name)
  | _ => none

def selector (x sel : NodeId) : Build NodeId := do
  let p ← get
  addNode (.selector x sel) (p.pos x) (p.type? sel <|> selectionType? p x sel)

def call (callee : NodeId) (args : List NodeId) (spread : Bool) : Build NodeId := do
  let p ← get
  let type := ((p.type? callee).bind p.types.signature?).bind Signature.singleResult?
  addNode (.call callee args spread) (p.pos callee) type

def composite (type : Option TypeId) (elts : List NodeId) (pos : Pos) : Build NodeId :=
  addNode (.composite elts) pos type

def keyValue (key value : NodeId) : Build NodeId := do
  addNode (.keyValue key value) ((← get).pos key) none

/-- The basic type of the literals of one kind. -/
def literalType : LiteralKind → String
  | .string => "string"
  | .int => "int"
  | .float => "float64"
  | .char => "rune"
  | .imag => "complex128"

def literal (kind : LiteralKind) (raw : String) (pos : Pos) : Build NodeId := do
  addNode (.literal kind raw) pos (some (← intern (.basic (literalType kind))))

/-- A quoted string literal for a text. -/
def stringLiteral (text : String) (pos : Pos) : Build NodeId :=
  literal .string (String.ofList (Text.Quoted.encode text.toList)) pos

/-- The type of `op x`, where `x` has a type. -/
def unaryType (op : String) (type : TypeId) : Build (Option TypeId) := do
  if op = "&" then return some (← intern (.pointer type))
  else if op = "*" then
    match (← get).types.get? type with
    | some (.pointer elem) => return some elem
    | _ => return none
  else return some type

def unary (op : String) (x : NodeId) (pos : Pos) : Build NodeId := do
  let type ← match (← get).type? x with
    | some type => unaryType op type
    | none => pure none
  addNode (.unary op x) pos type

def block (stmts : List NodeId) (pos : Pos) : Build NodeId := addNode (.block stmts) pos none

/-- The position of the first of some nodes, or the very first position. -/
def firstPos (p : Program) (nodes : List NodeId) : Pos := (nodes.head?.map p.pos).getD default

def assign (lhs rhs : List NodeId) (define : Bool) : Build NodeId := do
  addNode (.assign lhs rhs define) (firstPos (← get) (lhs ++ rhs)) none

def valueDecl (names values : List NodeId) : Build NodeId := do
  addNode (.valueDecl names values) (firstPos (← get) (names ++ values)) none

def other (label : String) (children : List NodeId) (pos : Pos) : Build NodeId :=
  addNode (.other label children) pos none

end Build

end FluentChain
