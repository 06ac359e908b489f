import FluentChain.Role.Table

/-!
# Field references

Which parts of a call name fields of a record.  `fieldArguments` picks the arguments that are passed for
field-selection parameters, and `references` finds the field references in an argument: string literals and
field offsets, also those among the elements of a map and the keys of key/value pairs.
-/

namespace FluentChain

/-- A field given by name, or by the arguments of a field offset `offsetof(x.f)`. -/
inductive FieldReference
  | named (raw : String)
  | offset (args : List NodeId)
deriving DecidableEq, Repr

namespace RoleTable

variable (roles : RoleTable) (p : Program)

/-- Whether a node stands for the field offset function. -/
def isFieldOffset (n : NodeId) : Bool := p.identObject? n == some roles.fieldOffset

def reference? (n : NodeId) : Option FieldReference :=
  match p.node? n with
  | some (.literal .string raw) => some (.named raw)
  | some (.call callee args _) => if roles.isFieldOffset p callee then some (.offset args) else none
  | _ => none

def isMapTyped (n : NodeId) : Bool := (p.type? n).any p.types.isMap

/-- The field references in an argument, in the order they are written. -/
def references (n : NodeId) : List NodeId :=
  match p.node? n with
  | some (.composite elts) =>
    if isMapTyped p n then elts.flatMap fun e => if e < n then references e else [] else []
  | some (.keyValue key _) => if key < n then references key else []
  | _ => if (roles.reference? p n).isSome then [n] else []
termination_by n

/-- The arguments that are passed past the fixed parameters.  Where the last one is spread, they are the
elements of the list it is written as. -/
def trailingArguments (rest : List NodeId) (spread : Bool) : List NodeId :=
  match spread, rest.getLast? with
  | true, some last =>
    match p.node? last with
    | some (.composite elts) => elts
    | _ => []
  | _, _ => rest

/-- The arguments of a call that are passed for field-selection parameters. -/
def fieldArguments (call : NodeId) : List NodeId :=
  match p.node? call, p.calleeSignature? call with
  | some (.call _ args spread), some sig =>
    let fixed := if sig.variadic then sig.params.length - 1 else sig.params.length
    let selected := (((sig.params.take fixed).zip args).filter (·.1 == roles.fieldSelection)).map (·.2)
    let variadicSelection :=
      sig.variadic && sig.params.getLast?.bind p.types.sliceElem? == some roles.fieldSelection
    selected ++ if variadicSelection then trailingArguments p (args.drop fixed) spread else []
  | _, _ => []

end RoleTable

end FluentChain
