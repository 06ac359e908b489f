import FluentChain.Program.Basic

/-!
# Package dumps

A package dump describes files with their syntax trees, types and symbols as text: types are type expressions,
positions are written positions, and symbols are named by key.  Several dumps together make a program.
-/

namespace FluentChain

structure FieldDump where
  name : String
  type : String
  embedded : Bool := false
  tag : Option String := none
  pos : Option String := none
deriving DecidableEq, Repr

/-- A method of a type `T`, declared on `*T` where `pointer` is set. -/
structure MethodDump where
  name : String
  pointer : Bool := false
  params : List String := []
  results : List String := []
deriving DecidableEq, Repr

/-- A type is a struct if it has fields, or else what its underlying type says, if there is one. -/
structure TypeDump where
  name : String
  pos : Option String := none
  fields : Option (List FieldDump) := none
  underlying : Option String := none
  methods : List MethodDump := []
deriving DecidableEq, Repr

/-- A symbol is a function if it has parameters, even an empty list of them, or else has the given type. -/
structure ObjectDump where
  key : String
  name : Option String := none
  kind : ObjectKind
  type : Option String := none
  params : Option (List String) := none
  results : List String := []
  pos : Option String := none
deriving DecidableEq, Repr

structure IdentDump where
  name : String
  obj : Option String := none
  isDef : Bool := false
  pos : String
  type : Option String := none
deriving DecidableEq, Repr

inductive NodeDump
  | ident (ident : IdentDump)
  | selector (x : NodeDump) (sel : IdentDump) (type : Option String)
  | call (callee : NodeDump) (args : List NodeDump) (spread : Bool) (type : Option String)
  | composite (type : String) (elts : List NodeDump) (pos : String)
  | keyValue (key value : NodeDump)
  | literal (kind : LiteralKind) (raw : String) (pos : String)
  | unary (op : String) (x : NodeDump) (pos : String)
  | block (stmts : List NodeDump) (pos : String)
  | assign (lhs rhs : List NodeDump) (define : Bool)
  | valueDecl (names : List IdentDump) (values : List NodeDump)
  | other (label : String) (children : List NodeDump) (pos : String)

structure FileDump where
  name : String
  decls : List NodeDump := []

structure PackageDump where
  package : Option String := none
  files : List FileDump := []
  types : List TypeDump := []
  objects : List ObjectDump := []

end FluentChain
