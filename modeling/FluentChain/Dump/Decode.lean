import FluentChain.Dump.Basic
import FluentChain.Json.Decode
import FluentChain.Json.Reader

/-!
# Reading dumps

The JSON form of package dumps.  Any member that does not fit makes the whole dump unreadable.

The kind of a node is the member `kind`.  A declaration must give it by name, and must be definite in all its
parts, those that are ignored included; a node inside another may also give its kind as the number of the kind
in the order of `NodeKind`.
-/

namespace FluentChain

open Json

def FieldDump.ofJson? (j : Json) : Option FieldDump := do
  unless j.isRecord do none
  return {
    name := ← j.required? "name" string?
    type := ← j.required? "type" string?
    embedded := ← j.defaulted? "embedded" false bool?
    tag := ← j.optional? "tag" string?
    pos := ← j.optional? "at" string? }

def MethodDump.ofJson? (j : Json) : Option MethodDump := do
  unless j.isRecord do none
  return {
    name := ← j.required? "name" string?
    pointer := ← j.defaulted? "pointer" false bool?
    params := ← j.defaulted? "params" [] strings?
    results := ← j.defaulted? "results" [] strings? }

def TypeDump.ofJson? (j : Json) : Option TypeDump := do
  unless j.isRecord do none
  return {
    name := ← j.required? "name" string?
    pos := ← j.optional? "at" string?
    fields := ← j.optional? "fields" fun v => v.array? >>= (·.mapM FieldDump.ofJson?)
    underlying := ← j.optional? "underlying" string?
    methods := ← j.defaulted? "methods" [] fun v => v.array? >>= (·.mapM MethodDump.ofJson?) }

/-- The kinds of symbols a dump declares; methods come with their types. -/
def ObjectDump.kinds : List (String × ObjectKind) :=
  [("var", .var), ("const", .const), ("func", .func), ("builtin", .builtin), ("type", .typeName),
   ("package", .package), ("field", .field)]

def ObjectDump.ofJson? (j : Json) : Option ObjectDump := do
  unless j.isRecord do none
  return {
    key := ← j.required? "id" string?
    name := ← j.optional? "name" string?
    kind := ← j.required? "kind" (choice? kinds isNull)
    type := ← j.optional? "type" string?
    params := ← j.optional? "params" strings?
    results := ← j.defaulted? "results" [] strings?
    pos := ← j.optional? "at" string? }

def IdentDump.ofJson? (j : Json) : Option IdentDump := do
  unless j.isRecord do none
  return {
    name := ← j.required? "name" string?
    obj := ← j.optional? "obj" string?
    isDef := ← j.defaulted? "def" false bool?
    pos := ← j.required? "at" string?
    type := ← j.optional? "type" string? }

inductive NodeKind
  | ident
  | selector
  | call
  | composite
  | keyValue
  | literal
  | unary
  | block
  | assign
  | valueDecl
  | other
deriving DecidableEq, Repr

/-- The kinds under their written names, in the order of their numbers. -/
def NodeKind.names : List (String × NodeKind) :=
  [("ident", .ident), ("selector", .selector), ("call", .call), ("composite", .composite),
   ("key_value", .keyValue), ("lit", .literal), ("unary", .unary), ("block", .block), ("assign", .assign),
   ("var", .valueDecl), ("other", .other)]

/-- The kind that a name stands for, or, inside another node, a number. -/
def NodeKind.ofJson? (nested : Bool) : Json → Option NodeKind
  | .string (some name) => names.lookup name
  | .number written =>
    if nested then do
      let index ← (List.range names.length).find? fun i => toString i == written
      return (← names[index]?).2
    else none
  | _ => none

def LiteralKind.names : List (String × LiteralKind) :=
  [("string", .string), ("int", .int), ("float", .float), ("char", .char), ("imag", .imag)]

/-- A member that holds a node, with the fact that it is smaller than what it stands in. -/
def Json.smaller? (j : Json) (key : String) : Option {v : Json // sizeOf v < sizeOf j} :=
  match h : j.member? key with
  | some v => some ⟨v, sizeOf_member?_lt h⟩
  | none => none

/-- The elements of a member that holds an array, or else nothing if it is absent and `optional`. -/
def Json.smallerElements? (j : Json) (key : String) (optional : Bool) :
    Option (List {v : Json // sizeOf v < sizeOf j}) :=
  match h : j.member? key with
  | some (.array elements) => some <| elements.attach.map fun ⟨v, hv⟩ => ⟨v, by
      have hlt := sizeOf_member?_lt h
      have := List.sizeOf_lt_of_mem hv
      simp only [Json.array.sizeOf_spec] at hlt
      omega⟩
  | some _ => none
  | none => if optional then some [] else none

def NodeDump.ofJson? (nested : Bool) (j : Json) : Option NodeDump := do
  unless j.isRecord do none
  let kind ← j.member? "kind"
  match ← NodeKind.ofJson? nested kind with
  | .ident => return .ident (← IdentDump.ofJson? j)
  | .selector =>
    let ⟨x, _⟩ ← j.smaller? "x"
    return .selector (← ofJson? true x) (← j.required? "sel" IdentDump.ofJson?)
      (← j.optional? "type" string?)
  | .call =>
    let ⟨callee, _⟩ ← j.smaller? "fun"
    let args ← j.smallerElements? "args" true
    return .call (← ofJson? true callee) (← args.mapM fun ⟨v, _⟩ => ofJson? true v)
      (← j.defaulted? "spread" false bool?) (← j.optional? "type" string?)
  | .composite =>
    let elts ← j.smallerElements? "elts" true
    return .composite (← j.required? "type" string?) (← elts.mapM fun ⟨v, _⟩ => ofJson? true v)
      (← j.required? "at" string?)
  | .keyValue =>
    let ⟨key, _⟩ ← j.smaller? "key"
    let ⟨value, _⟩ ← j.smaller? "value"
    return .keyValue (← ofJson? true key) (← ofJson? true value)
  | .literal =>
    return .literal (← j.defaulted? "lit" .string (choice? LiteralKind.names isNullOrEmpty))
      (← j.required? "value" string?) (← j.required? "at" string?)
  | .unary =>
    let ⟨x, _⟩ ← j.smaller? "x"
    return .unary (← j.required? "op" string?) (← ofJson? true x) (← j.required? "at" string?)
  | .block =>
    let stmts ← j.smallerElements? "stmts" true
    return .block (← stmts.mapM fun ⟨v, _⟩ => ofJson? true v) (← j.required? "at" string?)
  | .assign =>
    let lhs ← j.smallerElements? "lhs" false
    let rhs ← j.smallerElements? "rhs" false
    return .assign (← lhs.mapM fun ⟨v, _⟩ => ofJson? true v) (← rhs.mapM fun ⟨v, _⟩ => ofJson? true v)
      (← j.defaulted? "define" false bool?)
  | .valueDecl =>
    let values ← j.smallerElements? "values" true
    return .valueDecl (← j.required? "names" fun v => v.array? >>= (·.mapM IdentDump.ofJson?))
      (← values.mapM fun ⟨v, _⟩ => ofJson? true v)
  | .other =>
    let children ← j.smallerElements? "children" true
    return .other (← j.required? "label" string?) (← children.mapM fun ⟨v, _⟩ => ofJson? true v)
      (← j.required? "at" string?)
termination_by sizeOf j

/-- A declaration. -/
def NodeDump.declOfJson? (j : Json) : Option NodeDump :=
  if j.isDefinite then ofJson? false j else none

def FileDump.ofJson? (j : Json) : Option FileDump := do
  unless j.isRecord do none
  return {
    name := ← j.required? "name" string?
    decls := ← j.defaulted? "decls" [] fun v => v.array? >>= (·.mapM NodeDump.declOfJson?) }

def PackageDump.ofJson? (j : Json) : Option PackageDump := do
  unless j.isRecord do none
  return {
    package := ← j.optional? "package" string?
    files := ← j.defaulted? "files" [] fun v => v.array? >>= (·.mapM FileDump.ofJson?)
    types := ← j.defaulted? "types" [] fun v => v.array? >>= (·.mapM TypeDump.ofJson?)
    objects := ← j.defaulted? "objects" [] fun v => v.array? >>= (·.mapM ObjectDump.ofJson?) }

/-- The dump that a text writes. -/
def PackageDump.read? (text : String) : Option PackageDump := Json.read? text >>= ofJson?

end FluentChain
