import FluentChain.Type.Basic

/-!
# Chain contexts

A chain points at a record type, and at the record types it came through to get there: a stack whose root is
the type that the chain was opened on.  Descending puts a record type on the stack, and ascending takes one off,
but never the root.
-/

namespace FluentChain

/-- A stack that is never empty; `below` holds what is under the top, from the top down. -/
structure RecordStack where
  top : TypeId
  below : List TypeId := []
deriving DecidableEq, Repr

namespace RecordStack

def depth (s : RecordStack) : Nat := s.below.length + 1

def push (s : RecordStack) (record : TypeId) : RecordStack := ⟨record, s.top :: s.below⟩

/-- The stack without its top, unless the top is the root. -/
def pop? (s : RecordStack) : Option RecordStack :=
  match s.below with
  | [] => none
  | next :: rest => some ⟨next, rest⟩

/-- The records from the root to the top. -/
def records (s : RecordStack) : List TypeId := (s.top :: s.below).reverse

theorem length_records (s : RecordStack) : s.records.length = s.depth := by
  simp [records, depth]

theorem records_push (s : RecordStack) (record : TypeId) :
    (s.push record).records = s.records ++ [record] := by
  simp [records, push]

theorem pop?_push (s : RecordStack) (record : TypeId) : (s.push record).pop? = some s := rfl

theorem records_of_pop? {s t : RecordStack} (h : s.pop? = some t) : s.records = t.records ++ [s.top] := by
  obtain ⟨top, below⟩ := s
  cases below with
  | nil => simp [pop?] at h
  | cons next rest =>
    simp only [pop?, Option.some.injEq] at h
    subst h
    simp [records]

end RecordStack

/-- What a chain is known to point at.  Nothing is known of an `untracked` chain, and an `invalid` one has gone
through a field that is no record. -/
inductive ChainContext
  | untracked
  | invalid
  | tracked (stack : RecordStack)
deriving DecidableEq, Repr

namespace ChainContext

/-- The context of a chain that has just been opened on a record type. -/
def entry (record : TypeId) : ChainContext := .tracked ⟨record, []⟩

def top? : ChainContext → Option TypeId
  | .tracked stack => some stack.top
  | _ => none

def depth : ChainContext → Nat
  | .tracked stack => stack.depth
  | _ => 0

def records : ChainContext → List TypeId
  | .tracked stack => stack.records
  | _ => []

def descend (ctx : ChainContext) (record : TypeId) : ChainContext :=
  match ctx with
  | .tracked stack => .tracked (stack.push record)
  | ctx => ctx

/-- Takes the top off the stack, if it is not the root. -/
def ascend : ChainContext → ChainContext
  | .tracked stack => .tracked (stack.pop?.getD stack)
  | ctx => ctx

end ChainContext

end FluentChain
