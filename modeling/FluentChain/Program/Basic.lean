import FluentChain.Program.Node

/-!
# Programs

A program holds the files, syntax nodes, types and symbols of a package.  Everything is named by its index.
Children are made before their parents, so a child has a smaller index than its parent; `Program.subnodes`
gives the children together with this fact, which is what recursion over syntax descends by.

Files and symbols are looked up by searching the program; one that keeps indexes of file names and of keys beside it
answers alike (`IndexedProgram`).
-/

namespace FluentChain

inductive ObjectKind
  | var
  | const
  | func
  | method
  | builtin
  | typeName
  | package
  | field
deriving DecidableEq, Repr

/-- A symbol.  Its key names it in the whole program. -/
structure Object where
  key : String
  name : String
  kind : ObjectKind
  type : Option TypeId
  recv : Option TypeId
  pos : Option Pos
deriving DecidableEq, Repr

structure SourceFile where
  name : String
  decls : List NodeId
deriving DecidableEq, Repr

structure NodeData where
  node : Node
  pos : Pos
  type : Option TypeId
deriving DecidableEq, Repr

structure Program where
  files : Array SourceFile := #[]
  nodes : Array NodeData := #[]
  types : TypeTable := {}
  objects : Array Object := #[]
deriving DecidableEq, Repr

namespace Program

def fileName (p : Program) (file : FileId) : String :=
  match p.files[file]? with
  | some f => f.name
  | none => "<unknown>"

def displayPos (p : Program) (pos : Pos) : String :=
  p.fileName pos.file ++ ":" ++ toString pos.line ++ ":" ++ toString pos.col

def node? (p : Program) (n : NodeId) : Option Node := p.nodes[n]?.map (·.node)

def pos (p : Program) (n : NodeId) : Pos := (p.nodes[n]?.map (·.pos)).getD default

/-- The type recorded for an expression. -/
def type? (p : Program) (n : NodeId) : Option TypeId := p.nodes[n]?.bind (·.type)

def object? (p : Program) (o : ObjId) : Option Object := p.objects[o]?

/-- The declared type of a symbol. -/
def objectType? (p : Program) (o : ObjId) : Option TypeId := (p.object? o).bind (·.type)

def lookupObject? (p : Program) (key : String) : Option ObjId :=
  p.objects.findIdx? (·.key == key)

/-- All declarations, file by file. -/
def decls (p : Program) : List NodeId := p.files.toList.flatMap (·.decls)

def children (p : Program) (n : NodeId) : List NodeId := ((p.node? n).map (·.children)).getD []

theorem children_of_node? {p : Program} {n : NodeId} {node : Node} (h : p.node? n = some node) :
    p.children n = node.children := by
  rw [children, h]
  rfl

/-- The children that were made before their parent, which are all of them in a program built in order. -/
def subnodes (p : Program) (n : NodeId) : List {c : NodeId // c < n} :=
  (p.children n).filterMap fun c => if h : c < n then some ⟨c, h⟩ else none

theorem subnodes_map_val {p : Program} {n : NodeId} (h : ∀ c ∈ p.children n, c < n) :
    (p.subnodes n).map (·.val) = p.children n := by
  unfold subnodes
  generalize p.children n = cs at h
  induction cs with
  | nil => rfl
  | cons c cs ih =>
    have hc : c < n := h c (by simp)
    simp [hc, ih fun d hd => h d (by simp [hd])]

/-- The symbol that an identifier, or the selected name of a selector, stands for. -/
def identObject? (p : Program) (n : NodeId) : Option ObjId :=
  match p.node? n with
  | some (.ident _ obj _) => obj
  | some (.selector _ sel) => if sel < n then p.identObject? sel else none
  | _ => none
termination_by n

/-- The signature of what a call calls. -/
def calleeSignature? (p : Program) (call : NodeId) : Option Signature :=
  match p.node? call with
  | some (.call callee _ _) => (p.type? callee).bind p.types.signature?
  | _ => none

/-- The nodes of a subtree, a node after its children. -/
def subtree (p : Program) (n : NodeId) : List NodeId :=
  (p.subnodes n).flatMap (fun ⟨c, _⟩ => p.subtree c) ++ [n]
termination_by n

end Program

end FluentChain
