import FluentChain.Position

/-!
# Types

Types live in a table and are named by their index in it.  Named types are told apart by name, and pointers,
slices, arrays, maps, basic types and the empty interface by what they are made of: `TypeTable.intern` adds
one of these only where the table does not have it yet, so two types with equal parts are one index.  Names and parts
are looked up by searching the table; one that keeps indexes of names and of parts beside it answers alike
(`IndexedTypes`).

A component of a type always has a smaller index than the type itself, save for the underlying type of a named
type, which may lead back to it.
-/

namespace FluentChain

abbrev TypeId := Nat

/-- The index of a symbol in its program. -/
abbrev ObjId := Nat

structure Field where
  name : String
  type : TypeId
  embedded : Bool
  tag : Option String
  pos : Option Pos
deriving DecidableEq, Repr

structure Signature where
  params : List TypeId
  variadic : Bool
  results : List TypeId
deriving DecidableEq, Repr

def Signature.singleResult? (sig : Signature) : Option TypeId :=
  match sig.results with
  | [result] => some result
  | _ => none

structure NamedType where
  name : String
  pos : Option Pos
  underlying : Option TypeId
  methods : List ObjId
deriving DecidableEq, Repr

inductive Ty
  | basic (name : String)
  | named (decl : NamedType)
  | pointer (elem : TypeId)
  | slice (elem : TypeId)
  | array (elem : TypeId)
  | map (key value : TypeId)
  | struct (fields : List Field)
  | signature (sig : Signature)
  | interface
deriving DecidableEq, Repr

structure TypeTable where
  entries : Array Ty := #[]
deriving DecidableEq, Repr

namespace TypeTable

def get? (t : TypeTable) (id : TypeId) : Option Ty := t.entries[id]?

def size (t : TypeTable) : Nat := t.entries.size

/-- Adds a type under the next free index. -/
def push (t : TypeTable) (ty : Ty) : TypeId × TypeTable :=
  (t.entries.size, ⟨t.entries.push ty⟩)

def find? (t : TypeTable) (ty : Ty) : Option TypeId := t.entries.findIdx? (· = ty)

/-- The index of a type, which is added where the table does not hold it. -/
def intern (t : TypeTable) (ty : Ty) : TypeId × TypeTable :=
  match t.find? ty with
  | some id => (id, t)
  | none => t.push ty

def declares (name : String) : Ty → Bool
  | .named decl => decl.name == name
  | _ => false

/-- The type declared under a name. -/
def named? (t : TypeTable) (name : String) : Option TypeId := t.entries.findIdx? (declares name)

/-- The declaration of a named type. -/
def decl? (t : TypeTable) (id : TypeId) : Option NamedType :=
  match t.get? id with
  | some (.named decl) => some decl
  | _ => none

/-- Changes the declaration of a named type; any other index is left alone. -/
def modifyDecl (t : TypeTable) (id : TypeId) (f : NamedType → NamedType) : TypeTable :=
  ⟨t.entries.modify id fun
    | .named decl => .named (f decl)
    | ty => ty⟩

/-- Declares a name.  A name that is declared already keeps its index, and its position if it has one. -/
def declare (t : TypeTable) (name : String) (pos : Option Pos) : TypeId × TypeTable :=
  match t.named? name with
  | some id => (id, t.modifyDecl id fun decl => { decl with pos := decl.pos <|> pos })
  | none => t.push (.named ⟨name, pos, none, []⟩)

/-- The pointer to a type, if the table has it. -/
def pointerTo? (t : TypeTable) (elem : TypeId) : Option TypeId := t.find? (.pointer elem)

/-- How many names deep an underlying type is looked for. -/
def maxNameDepth : Nat := 16

/-- Follows underlying types through at most `depth` names. -/
def underlyingWithin (t : TypeTable) : Nat → TypeId → TypeId
  | 0, id => id
  | depth + 1, id =>
    match t.decl? id with
    | some { underlying := some next, .. } => t.underlyingWithin depth next
    | _ => id

/-- What is left of a type when its names are taken off. -/
def underlying (t : TypeTable) (id : TypeId) : TypeId := t.underlyingWithin maxNameDepth id

/-- The fields of a type that is a struct under its names. -/
def structFields? (t : TypeTable) (id : TypeId) : Option (List Field) :=
  match t.get? (t.underlying id) with
  | some (.struct fields) => some fields
  | _ => none

/-- The signature of a type that is a function under its names. -/
def signature? (t : TypeTable) (id : TypeId) : Option Signature :=
  match t.get? (t.underlying id) with
  | some (.signature sig) => some sig
  | _ => none

def isMap (t : TypeTable) (id : TypeId) : Bool :=
  match t.get? (t.underlying id) with
  | some (.map _ _) => true
  | _ => false

def sliceElem? (t : TypeTable) (id : TypeId) : Option TypeId :=
  match t.get? id with
  | some (.slice elem) => some elem
  | _ => none

/-- The named struct type that a value refers to: itself, or what its pointers, slices and arrays lead to. -/
def recordType? (t : TypeTable) (id : TypeId) : Option TypeId :=
  match t.get? id with
  | some (.pointer elem) | some (.slice elem) | some (.array elem) =>
    if elem < id then t.recordType? elem else none
  | some (.named _) => if (t.structFields? id).isSome then some id else none
  | _ => none
termination_by id

/-- The named type that owns the methods of a type: `T` for `T` and for `*T`. -/
def methodOwner? (t : TypeTable) (id : TypeId) : Option TypeId :=
  match t.get? id with
  | some (.named _) => some id
  | some (.pointer elem) => if (t.decl? elem).isSome then some elem else none
  | _ => none

end TypeTable

end FluentChain
