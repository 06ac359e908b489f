import FluentChain.Dump.Basic
import FluentChain.Program.Build

/-!
# From dumps to a program

`Program.ofDumps` merges dumps into one program.  It goes over all dumps once for each kind of item: files get
their numbers, types are declared, then defined, then given their methods; symbols are declared; and the syntax
trees come last.  A dump may so refer to what only a later one declares.
-/

namespace FluentChain

namespace Build

def position? (text : Option String) : Build (Option Pos) :=
  text.mapM (position · none)

def field (field : FieldDump) : Build Field := do
  let pos ← position? field.pos
  let type ← parseType field.type
  return ⟨field.name, type, field.embedded, field.tag, pos⟩

def defineType (type : TypeDump) : Build Unit := do
  let named ← declareType type.name none
  match type.fields, type.underlying with
  | some fields, _ => defineStruct named (← fields.mapM field)
  | none, some underlying => setUnderlying named (← parseType underlying)
  | none, none => return ()

/-- The types of parameters, and whether the last one is variadic; `owner` is the function they belong to. -/
def params (owner : String) : List String → Build (List TypeId × Bool)
  | [] => return ([], false)
  | param :: rest => do
    let (text, variadic) := TypeExpr.splitVariadic param
    if variadic then
      if rest.isEmpty then
        let elem ← parseType text
        return ([← intern (.slice elem)], true)
      else throw (.misplacedVariadic owner)
    else
      let type ← parseType text
      let (types, variadic) ← params owner rest
      return (type :: types, variadic)

def signatureType (owner : String) (paramTexts resultTexts : List String) : Build TypeId := do
  let (params, variadic) ← params owner paramTexts
  let results ← resultTexts.mapM parseType
  signature ⟨params, variadic, results⟩

def methodOf (named : TypeId) (owner : String) (m : MethodDump) : Build Unit := do
  let recv ← if m.pointer then intern (.pointer named) else pure named
  let sig ← signatureType (owner ++ "." ++ m.name) m.params m.results
  let _ ← method recv m.name sig

def methodsOf (type : TypeDump) : Build Unit := do
  let named ← declareType type.name none
  type.methods.forM (methodOf named type.name)

/-- The name in a key like `pkg.Name#3`: what stands before the first `#`, and of that what follows the last
dot. -/
def nameOfKey (key : String) : String :=
  let base := key.toList.takeWhile (· ≠ '#')
  String.ofList (base.reverse.takeWhile (· ≠ '.')).reverse

def declareObject (obj : ObjectDump) : Build Unit := do
  let type ← match obj.params, obj.type with
    | some params, _ => some <$> signatureType obj.key params obj.results
    | none, some type => some <$> parseType type
    | none, none => pure none
  let pos ← position? obj.pos
  let _ ← object ⟨obj.key, obj.name.getD (nameOfKey obj.key), obj.kind, type, none, pos⟩

/-- Gives a node the type that is written for it, if any. -/
def withType (n : NodeId) : Option String → Build NodeId
  | none => return n
  | some text => do
    setType n (← parseType text)
    return n

/-- The symbol with a key. -/
def symbol (key : String) : Build ObjId := do
  match (← get).lookupObject? key with
  | some obj => return obj
  | none => throw (.unknownObject key)

def identNode (file : FileId) (i : IdentDump) (isDef : Bool) : Build NodeId := do
  let obj ← i.obj.mapM symbol
  let pos ← position i.pos (some file)
  withType (← ident i.name obj isDef pos) i.type

mutual

/-- Adds the nodes of a tree, children first, and gives the node of its root. -/
def tree (file : FileId) : NodeDump → Build NodeId
  | .ident i => identNode file i i.isDef
  | .selector x sel type => do
    let x ← tree file x
    let sel ← identNode file sel sel.isDef
    withType (← selector x sel) type
  | .call callee args spread type => do
    let callee ← tree file callee
    let args ← trees file args
    withType (← call callee args spread) type
  | .composite type elts pos => do
    let type ← parseType type
    let elts ← trees file elts
    composite (some type) elts (← position pos (some file))
  | .keyValue key value => do
    let key ← tree file key
    let value ← tree file value
    keyValue key value
  | .literal kind raw pos => do
    literal kind raw (← position pos (some file))
  | .unary op x pos => do
    let x ← tree file x
    unary op x (← position pos (some file))
  | .block stmts pos => do
    let stmts ← trees file stmts
    block stmts (← position pos (some file))
  | .assign lhs rhs define => do
    let lhs ← trees file lhs
    let rhs ← trees file rhs
    assign lhs rhs define
  | .valueDecl names values => do
    let names ← names.mapM (identNode file · true)
    let values ← trees file values
    valueDecl names values
  | .other label children pos => do
    let children ← trees file children
    other label children (← position pos (some file))

def trees (file : FileId) : List NodeDump → Build (List NodeId)
  | [] => return []
  | node :: rest => do
    let n ← tree file node
    return n :: (← trees file rest)

end

def declsOf (f : FileDump) : Build Unit := do
  let id ← file f.name
  f.decls.forM fun decl => do pushDecl id (← tree id decl)

def declareTypeOf (type : TypeDump) : Build Unit := do
  let pos ← position? type.pos
  let _ ← declareType type.name pos

/-- Merges dumps, all items of one kind before the next kind. -/
def dumps (ds : List PackageDump) : Build Unit := do
  let files := ds.flatMap (·.files)
  let types := ds.flatMap (·.types)
  files.forM fun f => do let _ ← file f.name
  types.forM declareTypeOf
  types.forM defineType
  types.forM methodsOf
  (ds.flatMap (·.objects)).forM declareObject
  files.forM declsOf

end Build

/-- The program that dumps describe together. -/
def Program.ofDumps (dumps : List PackageDump) : Except LoadError Program :=
  match Build.dumps dumps {} with
  | .ok _ p => .ok p
  | .error e _ => .error e

end FluentChain
