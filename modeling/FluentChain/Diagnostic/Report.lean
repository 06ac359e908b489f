import FluentChain.Diagnostic.Basic

/-!
# Reports

A report lists the examined expressions in the order of their positions, each with the messages of its
diagnostics.  The plain form shows the messages only; the verbose form also says of every expression whether
it is in order.
-/

namespace FluentChain

structure ReportEntry where
  expr : NodeId
  location : String
  messages : List String
deriving DecidableEq, Repr

structure Report where
  entries : List ReportEntry
  verbose : Bool
deriving DecidableEq, Repr

namespace Diagnostics

/-- Whether a report may list `a` before `b`: by file, line and column, and then by their own numbers. -/
def precedes (p : Program) (a b : NodeId) : Bool :=
  let posA := p.pos a
  let posB := p.pos b
  posA.file < posB.file || posA.file == posB.file &&
    (posA.line < posB.line || posA.line == posB.line &&
      (posA.col < posB.col || posA.col == posB.col && a ≤ b))

/-- The examined expressions in the order of a report. -/
def sorted (ds : Diagnostics) (p : Program) : List NodeId := ds.checked.mergeSort (precedes p)

/-- All diagnostics in the order of a report. -/
def inOrder (ds : Diagnostics) (p : Program) : List Diagnostic := (ds.sorted p).flatMap ds.foundAt

def report (ds : Diagnostics) (p : Program) (verbose : Bool) : Report where
  entries := (ds.sorted p).map fun n =>
    ⟨n, p.displayPos (p.pos n), (ds.foundAt n).map (Diagnostic.message p)⟩
  verbose := verbose

end Diagnostics

def ReportEntry.lines (verbose : Bool) (e : ReportEntry) : List String :=
  if verbose then
    (e.location ++ if e.messages.isEmpty then " ok" else " has error:")
      :: e.messages.map ("\t" ++ ·)
  else e.messages

namespace Report

def lines (r : Report) : List String := r.entries.flatMap (·.lines r.verbose)

/-- The number of diagnostics. -/
def size (r : Report) : Nat := (r.entries.flatMap (·.messages)).length

def isClean (r : Report) : Bool := r.size == 0

/-- The lines of a report, each ended by a line feed. -/
def text (r : Report) : String := String.join (r.lines.map (· ++ "\n"))

end Report

end FluentChain
