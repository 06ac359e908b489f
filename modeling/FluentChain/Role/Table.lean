import FluentChain.Program.Basic
import FluentChain.Role.Manifest

/-!
# Role tables

`RoleTable.discover` finds the types and methods that a manifest names in a program and gives every method that
takes part in chains its role.  Methods are known by symbol from there on, not by name.  A manifest that does
not fit the program gives no table.
-/

namespace FluentChain

/-- The places where a manifest names a type. -/
inductive TypeUse
  | builder
  | fieldSelection
  | chainSource
deriving DecidableEq, Repr

def TypeUse.text : TypeUse → String
  | .builder => "builder"
  | .fieldSelection => "field selection"
  | .chainSource => "chain source"

/-- Why a method cannot have the role that a manifest gives it. -/
inductive SignatureFlaw
  | notAFunction
  | notBuilder
  | entryWithoutValue
  | descendWithoutSelection
  | ascendWithArguments
deriving DecidableEq, Repr

def SignatureFlaw.text : SignatureFlaw → String
  | .notAFunction => "not a function"
  | .notBuilder => "must return the builder type"
  | .entryWithoutValue => "entry takes the record value"
  | .descendWithoutSelection => "descend takes a field selection first"
  | .ascendWithArguments => "ascend takes no arguments"

/-- Why a manifest does not fit a program. -/
inductive RoleError
  | unknownType (use : TypeUse) (expr : String)
  | missingMethod (receiver name : String)
  | badSignature (method : String) (flaw : SignatureFlaw)
  | missingFieldOffset (key : String)
deriving DecidableEq, Repr

def RoleError.message : RoleError → String
  | .unknownType use expr =>
    use.text ++ " type `" ++ expr ++ "` is not declared by the library surface"
  | .missingMethod receiver name =>
    "method `(" ++ receiver ++ ")." ++ name ++ "` is not declared by the library surface"
  | .badSignature method flaw => "method `" ++ method ++ "` has an unexpected signature: " ++ flaw.text
  | .missingFieldOffset key => "field offset builtin `" ++ key ++ "` is not declared"

/-- The roles of the methods of a program.  Of several roles for one method the first counts. -/
structure RoleTable where
  roles : List (ObjId × Role)
  builder : TypeId
  fieldSelection : TypeId
  fieldOffset : ObjId
  tag : TagConfig
deriving DecidableEq, Repr

namespace RoleTable

def roleOf? (t : RoleTable) (method : ObjId) : Option Role := t.roles.lookup method

/-- The methods that have a role, in the order they were declared in. -/
def methods (t : RoleTable) : List ObjId := (t.roles.map (·.1)).eraseDups.mergeSort

/-- The type written `T`, `*T`, … with a declared name `T`, if the table holds it. -/
def findType? (types : TypeTable) (cs : List Char) : Option TypeId :=
  match _h : Text.trim cs with
  | '*' :: rest => (findType? types rest).bind types.pointerTo?
  | name => types.named? (String.ofList name)
termination_by cs.length
decreasing_by
  have hle := Text.length_trim_le cs
  rw [_h] at hle
  simp only [List.length_cons] at hle
  omega

/-- The method of a receiver type `T` or `*T`; a method of `*T` may be declared on `T`. -/
def findMethod? (p : Program) (receiver name : String) : Option ObjId :=
  let cs := Text.trim receiver.toList
  let declared (cs : List Char) := p.lookupObject? ("(" ++ String.ofList cs ++ ")." ++ name)
  declared cs <|> match cs with
    | '*' :: base => declared base
    | _ => none

def signatureOf? (p : Program) (method : ObjId) : Option Signature :=
  (p.objectType? method).bind p.types.signature?

def requireType (types : TypeTable) (use : TypeUse) (expr : String) : Except RoleError TypeId :=
  match findType? types expr.toList with
  | some id => .ok id
  | none => .error (.unknownType use expr)

/-- The field offset function, which is a function or a builtin. -/
def requireFieldOffset (p : Program) (key : String) : Except RoleError ObjId :=
  match p.lookupObject? key with
  | some o =>
    match p.object? o with
    | some { kind := .builtin, .. } | some { kind := .func, .. } => .ok o
    | _ => .error (.missingFieldOffset key)
  | none => .error (.missingFieldOffset key)

/-- A chain source: the name of a type, and whether the methods of pointers to it count too. -/
def splitPointer (source : String) : String × Bool :=
  match Text.trim source.toList with
  | '*' :: base => (String.ofList base, true)
  | base => (String.ofList base, false)

/-- The methods of a chain source that return the builder type.  A source `T` has the methods declared on `T`
only, `*T` also those declared on `*T`. -/
def sourceMethods (p : Program) (builder : TypeId) (source : String) : Except RoleError (List ObjId) :=
  let (base, byPointer) := splitPointer source
  match p.types.named? base with
  | none => .error (.unknownType .chainSource source)
  | some owner =>
    let methods := ((p.types.decl? owner).map (·.methods)).getD []
    .ok <| methods.filter fun m =>
      (byPointer || ((p.object? m).bind (·.recv)) == some owner)
        && ((signatureOf? p m).bind Signature.singleResult?) == some builder

/-- What a role asks of a method's parameters. -/
def roleFlaw? (fieldSelection : TypeId) (role : Role) (sig : Signature) : Option SignatureFlaw :=
  match role with
  | .entry => if sig.params = [] then some .entryWithoutValue else none
  | .descend => if sig.params.head? = some fieldSelection then none else some .descendWithoutSelection
  | .ascend => if sig.params = [] then none else some .ascendWithArguments
  | .preserve => none

/-- What is wrong with a method for a role. -/
def methodFlaw? (p : Program) (builder fieldSelection : TypeId) (role : Role) (method : ObjId) :
    Option SignatureFlaw :=
  match signatureOf? p method with
  | none => some .notAFunction
  | some sig =>
    if sig.singleResult? = some builder then roleFlaw? fieldSelection role sig else some .notBuilder

/-- The method that an entry of a manifest names, with its role. -/
def namedMethod (p : Program) (builder fieldSelection : TypeId) (entry : MethodRole) :
    Except RoleError (ObjId × Role) :=
  match findMethod? p entry.receiver entry.name with
  | none => .error (.missingMethod entry.receiver entry.name)
  | some method =>
    match methodFlaw? p builder fieldSelection entry.role method with
    | some flaw => .error (.badSignature (((p.object? method).map (·.key)).getD "") flaw)
    | none => .ok (method, entry.role)

/-- The role table of a program.  The methods that a manifest names have the last role it gives them, and the
other methods of its chain sources preserve the chain. -/
def discover (p : Program) (manifest : Manifest) : Except RoleError RoleTable := do
  let builder ← requireType p.types .builder manifest.builder
  let fieldSelection ← requireType p.types .fieldSelection manifest.fieldSelection
  let fieldOffset ← requireFieldOffset p manifest.fieldOffset
  let sources ← manifest.chainSources.mapM (sourceMethods p builder)
  let named ← manifest.methods.mapM (namedMethod p builder fieldSelection)
  return {
    roles := named.reverse ++ sources.flatten.map (·, .preserve)
    builder, fieldSelection, fieldOffset
    tag := manifest.tag }

end RoleTable

end FluentChain
