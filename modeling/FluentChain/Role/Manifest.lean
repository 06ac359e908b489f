import FluentChain.Json.Decode
import FluentChain.Json.Reader
import FluentChain.Program.Error
import FluentChain.Record.FieldTable

/-!
# Role manifests

A manifest describes a builder library: the type of its chains, the methods with a part to play in them, and
the types whose other methods keep a chain going.
-/

namespace FluentChain

/-- What a method does to the chain it is called on. -/
inductive Role
  | entry
  | preserve
  | descend
  | ascend
deriving DecidableEq, Repr

structure MethodRole where
  receiver : String
  name : String
  role : Role
deriving DecidableEq, Repr

structure Manifest where
  library : String := ""
  builder : String
  fieldSelection : String
  fieldOffset : String
  tag : TagConfig := ⟨"toyorm", "alias"⟩
  chainSources : List String := []
  methods : List MethodRole := []
deriving DecidableEq, Repr

/-- Why a manifest could not be read. -/
inductive ManifestError
  | unreadable (path : String) (failure : ReadFailure)
  | malformed
  | noEntry
deriving DecidableEq, Repr

def ManifestError.message : ManifestError → String
  | .unreadable path failure => "failed to read role manifest " ++ path ++ ": " ++ failure.message
  | .malformed => "invalid role manifest"
  | .noEntry => "role manifest declares no entry method"

namespace Role

/-- The written names of the roles. -/
def names : List (String × Role) :=
  [("entry", .entry), ("preserve", .preserve), ("descend", .descend), ("ascend", .ascend)]

end Role

namespace Manifest

open Json

def tagOfJson? (j : Json) : Option TagConfig := do
  unless j.isRecord do none
  return ⟨← j.required? "key" string?, ← j.required? "alias" string?⟩

def methodOfJson? (j : Json) : Option MethodRole := do
  unless j.isRecord do none
  return ⟨← j.required? "receiver" string?, ← j.required? "name" string?,
    ← j.required? "role" (choice? Role.names isNull)⟩

def ofJson? (j : Json) : Option Manifest := do
  unless j.isRecord do none
  return {
    library := ← j.defaulted? "library" "" string?
    builder := ← j.required? "builder" string?
    fieldSelection := ← j.required? "field_selection" string?
    fieldOffset := ← j.required? "field_offset" string?
    tag := ← j.defaulted? "tag" ⟨"toyorm", "alias"⟩ tagOfJson?
    chainSources := ← j.defaulted? "chain_sources" [] strings?
    methods := ← j.defaulted? "methods" [] fun v => v.array? >>= (·.mapM methodOfJson?) }

/-- A manifest without an entry method describes no chains. -/
def read (text : String) : Except ManifestError Manifest :=
  match Json.read? text >>= ofJson? with
  | none => .error .malformed
  | some manifest =>
    if manifest.methods.any (·.role == .entry) then .ok manifest else .error .noEntry

/-- The manifest used where none is given. -/
def bundled : Manifest where
  library := "github.com/bigpigeon/toyorm"
  builder := "*toyorm.ToyBrick"
  fieldSelection := "toyorm.FieldSelection"
  fieldOffset := "unsafe.Offsetof"
  tag := ⟨"toyorm", "alias"⟩
  chainSources := ["*toyorm.ToyBrick", "*toyorm.ToyBrickOr", "*toyorm.ToyBrickAnd"]
  methods :=
    [⟨"*toyorm.Toy", "Model", .entry⟩, ⟨"*toyorm.ToyBrick", "Preload", .descend⟩,
     ⟨"*toyorm.ToyBrick", "Join", .descend⟩, ⟨"*toyorm.ToyBrick", "Enter", .ascend⟩,
     ⟨"*toyorm.ToyBrick", "Swap", .ascend⟩]

end Manifest

end FluentChain
