import FluentChain.Text.Blank
import FluentChain.Text.Digits

/-!
# Positions

A position names a file by its number, and a line and a column in it.  It is written `file:line:col`, or
`line:col` where the file is clear from the context.  File names may hold colons, so a position is read from
its right end (`WrittenPos.parse?`).
-/

namespace FluentChain

abbrev FileId := Nat

structure Pos where
  file : FileId
  line : Nat
  col : Nat
deriving DecidableEq, Repr, Inhabited

/-- A position as it is written, its file still a name or left to the context. -/
structure WrittenPos where
  file : Option String
  line : Nat
  col : Nat
deriving DecidableEq, Repr

namespace WrittenPos

/-- Splits a text at its last colon. -/
def splitLast? (cs : List Char) : Option (List Char × List Char) :=
  match cs.reverse.dropWhile (· ≠ ':') with
  | [] => none
  | _ :: before => some (before.reverse, (cs.reverse.takeWhile (· ≠ ':')).reverse)

/-- The number above all lines and columns. -/
def countBound : Nat := 4294967296

/-- A line or column: decimal digits, a plus sign before them and blanks around allowed, below `countBound`. -/
def count? (cs : List Char) : Option Nat :=
  let cs := Text.trim cs
  let digits := match cs with
    | '+' :: rest => rest
    | _ => cs
  if Text.isDigits digits ∧ Text.digitsValue digits < countBound then some (Text.digitsValue digits)
  else none

def parse? (text : String) : Option WrittenPos := do
  let (before, col) ← splitLast? text.toList
  let col ← count? col
  match splitLast? before with
  | none => return ⟨none, ← count? before, col⟩
  | some (name, line) =>
    let line ← count? line
    if name = [] then none else return ⟨some (String.ofList name), line, col⟩

end WrittenPos

end FluentChain
