import FluentChain.Program.Basic
import FluentChain.Record.FieldTable

/-!
# Diagnostics

What is wrong with an expression, and the record of all expressions that were examined.  `Diagnostics` only
ever grows: an expression once examined stays examined, and a diagnostic stays behind the ones before it.
-/

namespace FluentChain

inductive DiagnosticKind
  | typeMismatch
  | fieldNotFound
  | notAStructField
  | noTable (error : FieldTableError)
deriving DecidableEq, Repr

/-- A fault at a position; `reference` is the declaration that it conflicts with. -/
structure Diagnostic where
  kind : DiagnosticKind
  pos : Pos
  reference : Option Pos
deriving DecidableEq, Repr

def Diagnostic.message (p : Program) (d : Diagnostic) : String :=
  let pos := p.displayPos d.pos
  let reference := (d.reference.map p.displayPos).getD "<unknown>"
  match d.kind with
  | .typeMismatch => pos ++ " type must same as " ++ reference
  | .fieldNotFound => pos ++ " field not found in " ++ reference
  | .notAStructField => pos ++ " is not a struct field"
  | .noTable (.duplicateKey key _ _) =>
    pos ++ " duplicate key " ++ key ++ " (first declared at " ++ reference ++ ")"
  | .noTable error => pos ++ " " ++ error.message

/-- The examined expressions, each once, and the diagnostics, in the order they were found. -/
structure Diagnostics where
  checked : List NodeId := []
  found : List (NodeId × Diagnostic) := []
deriving DecidableEq, Repr

namespace Diagnostics

def mark (ds : Diagnostics) (n : NodeId) : Diagnostics :=
  if n ∈ ds.checked then ds else { ds with checked := ds.checked ++ [n] }

def push (ds : Diagnostics) (n : NodeId) (d : Diagnostic) : Diagnostics :=
  let ds := ds.mark n
  { ds with found := ds.found ++ [(n, d)] }

def isChecked (ds : Diagnostics) (n : NodeId) : Bool := n ∈ ds.checked

/-- The diagnostics of an expression. -/
def foundAt (ds : Diagnostics) (n : NodeId) : List Diagnostic :=
  (ds.found.filter (·.1 == n)).map (·.2)

def checkedCount (ds : Diagnostics) : Nat := ds.checked.length

def size (ds : Diagnostics) : Nat := ds.found.length

def isEmpty (ds : Diagnostics) : Bool := ds.found.isEmpty

@[simp] theorem isChecked_mark (ds : Diagnostics) (n e : NodeId) :
    (ds.mark n).isChecked e = true ↔ ds.isChecked e = true ∨ e = n := by
  unfold mark isChecked
  split
  · rename_i h
    simp only [decide_eq_true_eq, iff_self_or]
    rintro rfl
    exact h
  · simp

@[simp] theorem isChecked_push (ds : Diagnostics) (n e : NodeId) (d : Diagnostic) :
    (ds.push n d).isChecked e = true ↔ ds.isChecked e = true ∨ e = n := isChecked_mark ds n e

@[simp] theorem found_mark (ds : Diagnostics) (n : NodeId) : (ds.mark n).found = ds.found := by
  unfold mark
  split <;> rfl

@[simp] theorem foundAt_mark (ds : Diagnostics) (n e : NodeId) : (ds.mark n).foundAt e = ds.foundAt e := by
  simp [foundAt]

theorem foundAt_push (ds : Diagnostics) (n e : NodeId) (d : Diagnostic) :
    (ds.push n d).foundAt e = if e = n then ds.foundAt e ++ [d] else ds.foundAt e := by
  by_cases h : e = n
  · subst h
    simp [foundAt, push]
  · have hne : (n == e) = false := beq_eq_false_iff_ne.2 (Ne.symm h)
    simp [foundAt, push, h, hne]

end Diagnostics

end FluentChain
