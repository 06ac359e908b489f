import FluentChain.Chain.Walk
import FluentChain.Diagnostic.Report
import FluentChain.Dump.File

/-!
# Checking programs

`Program.check` finds the roles that a manifest describes in a program, walks all its chains, and reports what
it finds.  `checkFiles` does so for the program that some dump files describe.
-/

namespace FluentChain

/-- Why there is no report. -/
inductive CheckFailure
  | load (error : LoadError)
  | roles (error : RoleError)
  | walk (program : Program) (error : CheckError)
deriving DecidableEq, Repr

/-- The messages of a failure, from what was being done down to its cause. -/
def CheckFailure.messages : CheckFailure → List String
  | .load (.unreadable path failure) =>
    ["failed to load package dumps", (LoadError.unreadable path failure).message, failure.message]
  | .load error => ["failed to load package dumps", error.message]
  | .roles error => ["failed to bootstrap the method role registry", error.message]
  | .walk program error => [error.message program]

/-- The diagnostics of all chains of a program. -/
def Program.diagnose (p : Program) (roles : RoleTable) : Except CheckError Diagnostics :=
  match Walk.program p roles {} with
  | .ok _ s => .ok s.diagnostics
  | .error e _ => .error e

def Program.check (p : Program) (manifest : Manifest) (verbose : Bool) : Except CheckFailure Report := do
  let roles ← (RoleTable.discover p manifest).mapError .roles
  let diagnostics ← (p.diagnose roles).mapError (.walk p)
  return diagnostics.report p verbose

def checkFiles (view : FileView) (paths : List String) (manifest : Manifest) (verbose : Bool) :
    Except CheckFailure Report := do
  let p ← (Program.load view paths).mapError .load
  p.check manifest verbose

end FluentChain
