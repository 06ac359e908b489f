import FluentChain.Dump.Decode
import FluentChain.Dump.Merge
import FluentChain.Role.Manifest
import FluentChain.File.View

/-!
# Dump files

A file with the extension `json` holds a dump in JSON; any other holds it in YAML.  JSON on one line is YAML
as well, and that is the YAML that is read.
-/

namespace FluentChain

inductive DumpFormat
  | json
  | yaml
deriving DecidableEq, Repr

def DumpFormat.ofPath (path : String) : DumpFormat :=
  if Path.extension? path = some "json" then .json else .yaml

/-- Whether a file in a directory of dumps is one of them. -/
def PackageDump.isDumpPath (path : String) : Bool :=
  Path.extension? path ∈ [some "json", some "yaml", some "yml"]

/-- The dump in a file. -/
def PackageDump.load (view : FileView) (path : String) : Except LoadError PackageDump :=
  match view.read path with
  | .error failure => .error (.unreadable path failure)
  | .ok text =>
    match read? text with
    | some dump => .ok dump
    | none => .error (.malformedDump path)

/-- The program that dump files describe together. -/
def Program.load (view : FileView) (paths : List String) : Except LoadError Program := do
  Program.ofDumps (← paths.mapM (PackageDump.load view))

/-- The manifest in a file. -/
def Manifest.load (view : FileView) (path : String) : Except ManifestError Manifest :=
  match view.read path with
  | .error failure => .error (.unreadable path failure)
  | .ok text => read text

end FluentChain
