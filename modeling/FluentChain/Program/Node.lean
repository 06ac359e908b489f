import FluentChain.Type.Basic

/-!
# Syntax nodes

The kinds of node a syntax tree is made of.  Nodes are named by their index in a program, and a node refers to
its children by index.
-/

namespace FluentChain

abbrev NodeId := Nat

inductive LiteralKind
  | int
  | float
  | imag
  | char
  | string
deriving DecidableEq, Repr

/-- A node.  The selected name of a `selector` is a node of its own, a literal keeps its written form, and
`other` stands for all syntax of which only the children matter. -/
inductive Node
  | ident (name : String) (obj : Option ObjId) (isDef : Bool)
  | selector (x sel : NodeId)
  | call (callee : NodeId) (args : List NodeId) (spread : Bool)
  | composite (elts : List NodeId)
  | keyValue (key value : NodeId)
  | literal (kind : LiteralKind) (raw : String)
  | unary (op : String) (x : NodeId)
  | block (stmts : List NodeId)
  | assign (lhs rhs : List NodeId) (define : Bool)
  | valueDecl (names values : List NodeId)
  | other (label : String) (children : List NodeId)
deriving DecidableEq, Repr

/-- The children of a node, in the order they are written. -/
def Node.children : Node → List NodeId
  | .ident .. | .literal .. => []
  | .selector x sel => [x, sel]
  | .call callee args _ => callee :: args
  | .composite elts => elts
  | .keyValue key value => [key, value]
  | .unary _ x => [x]
  | .block stmts => stmts
  | .assign lhs rhs _ => lhs ++ rhs
  | .valueDecl names values => names ++ values
  | .other _ children => children

end FluentChain
