import Mathlib.Data.List.Basic
import FluentChain.Chain.Context

/-!
# Chains as rooted stacks

A chain moves down to the record of a field and back up again.  Moves change a tracked context as they change a
plain list of records that always keeps its first one, and moves that come in pairs, each way down with a way up
behind it, leave every context as it was (`rooted_stack`).

The stack of a context can also be stored as linked levels.  Each level holds its record, the level it was put on,
which other stacks may share, and its depth, which is counted once, when the level is made.  Both forms move alike,
and the stored depth is always the number of records.
-/

namespace FluentChain

/-- One step of a chain: down to a record, or up to the record it came from. -/
inductive Move
  | descend (record : TypeId)
  | ascend
deriving DecidableEq, Repr

/-- Moves in pairs: behind each way down there is the way up that takes it back, with paired moves in between. -/
inductive Move.Paired : List Move → Prop
  | nil : Move.Paired []
  | nest (record : TypeId) {inner rest : List Move} :
      Move.Paired inner → Move.Paired rest → Move.Paired (.descend record :: inner ++ .ascend :: rest)

/-- Paired moves change nothing, wherever a way up takes back the way down just before it. -/
theorem Move.Paired.foldl_eq {State : Type} {move : State → Move → State}
    (hback : ∀ state record, move (move state (.descend record)) .ascend = state) {moves : List Move}
    (h : Move.Paired moves) : ∀ state, moves.foldl move state = state := by
  induction h with
  | nil => exact fun _ => rfl
  | nest record _ _ ihInner ihRest =>
    intro state
    rw [List.cons_append, List.foldl_cons, List.foldl_append, ihInner, List.foldl_cons, hback, ihRest]

/-! ### Moves of a list, of a stack, and of a context -/

/-- A move of a plain list of records, from the root to the top; its last record is taken off only where there
are others. -/
def Move.onRecords (records : List TypeId) : Move → List TypeId
  | .descend record => records ++ [record]
  | .ascend => if 1 < records.length then records.dropLast else records

namespace RecordStack

def move (s : RecordStack) : Move → RecordStack
  | .descend record => s.push record
  | .ascend => s.pop?.getD s

def after (s : RecordStack) (moves : List Move) : RecordStack := moves.foldl move s

theorem move_descend_ascend (s : RecordStack) (record : TypeId) :
    (s.move (.descend record)).move .ascend = s := by
  simp only [move, pop?_push, Option.getD_some]

/-- At the root there is nothing below to go up to. -/
theorem records_of_pop?_eq_none {s : RecordStack} (h : s.pop? = none) : s.records = [s.top] := by
  obtain ⟨top, below⟩ := s
  cases below with
  | nil => rfl
  | cons next rest => cases h

theorem records_move (s : RecordStack) (m : Move) : (s.move m).records = m.onRecords s.records := by
  cases m with
  | descend record => exact s.records_push record
  | ascend =>
    cases hpop : s.pop? with
    | none => simp only [move, hpop, Option.getD_none, Move.onRecords, records_of_pop?_eq_none hpop,
        List.length_singleton, Nat.lt_irrefl, if_false]
    | some t =>
      -- The stack below is never empty, so the list has a record to spare.
      have hlong : 1 < (t.records ++ [s.top]).length := by
        rw [List.length_append, length_records]
        simp [depth]
      rw [Move.onRecords, records_of_pop? hpop, if_pos hlong, List.dropLast_concat, move, hpop, Option.getD_some]

theorem records_after (s : RecordStack) (moves : List Move) :
    (s.after moves).records = moves.foldl Move.onRecords s.records :=
  (List.foldl_hom records fun s m => (records_move s m).symm).symm

/-- No move takes the root off the stack. -/
theorem head?_records_move (s : RecordStack) (m : Move) : (s.move m).records.head? = s.records.head? := by
  rw [records_move]
  cases m with
  | descend record => exact List.head?_append_of_ne_nil _ (List.ne_nil_of_length_eq_add_one s.length_records)
  | ascend =>
    by_cases hlong : 1 < s.records.length
    · rw [Move.onRecords, if_pos hlong, List.head?_dropLast, if_pos hlong]
    · rw [Move.onRecords, if_neg hlong]

theorem head?_records_after (s : RecordStack) (moves : List Move) :
    (s.after moves).records.head? = s.records.head? := by
  induction moves generalizing s with
  | nil => rfl
  | cons m rest ih => exact (ih (s.move m)).trans (s.head?_records_move m)

end RecordStack

namespace ChainContext

def move (ctx : ChainContext) : Move → ChainContext
  | .descend record => ctx.descend record
  | .ascend => ctx.ascend

def after (ctx : ChainContext) (moves : List Move) : ChainContext := moves.foldl move ctx

theorem move_tracked (s : RecordStack) (m : Move) : (tracked s).move m = tracked (s.move m) := by
  cases m <;> rfl

theorem after_tracked (s : RecordStack) (moves : List Move) :
    (tracked s).after moves = tracked (s.after moves) :=
  List.foldl_hom tracked move_tracked

end ChainContext

/-! ### Linked levels -/

/-- A stack as linked levels, each with the depth counted for it. -/
inductive LinkedStack
  | root (top : TypeId) (depth : Nat)
  | over (top : TypeId) (below : LinkedStack) (depth : Nat)
deriving DecidableEq, Repr

namespace LinkedStack

def new (record : TypeId) : LinkedStack := .root record 1

def top : LinkedStack → TypeId
  | .root top _ => top
  | .over top _ _ => top

/-- The depth as it is stored. -/
def depth : LinkedStack → Nat
  | .root _ depth => depth
  | .over _ _ depth => depth

def push (s : LinkedStack) (record : TypeId) : LinkedStack := .over record s (s.depth + 1)

def pop? : LinkedStack → Option LinkedStack
  | .root _ _ => none
  | .over _ below _ => some below

/-- The records from the root to the top, read by following the links. -/
def records : LinkedStack → List TypeId
  | .root top _ => [top]
  | .over top below _ => below.records ++ [top]

def move (s : LinkedStack) : Move → LinkedStack
  | .descend record => s.push record
  | .ascend => s.pop?.getD s

def after (s : LinkedStack) (moves : List Move) : LinkedStack := moves.foldl move s

/-- The levels of a stack with `record` on top of `below`. -/
def ofLevels (record : TypeId) : List TypeId → LinkedStack
  | [] => new record
  | next :: rest => (ofLevels next rest).push record

/-- The stack as linked levels, with every depth counted right. -/
def ofStack (s : RecordStack) : LinkedStack := ofLevels s.top s.below

theorem top_ofLevels (record : TypeId) (below : List TypeId) : (ofLevels record below).top = record := by
  cases below <;> rfl

theorem depth_ofLevels (record : TypeId) (below : List TypeId) :
    (ofLevels record below).depth = below.length + 1 := by
  induction below generalizing record with
  | nil => rfl
  | cons next rest ih => exact congrArg (· + 1) (ih next)

theorem records_ofLevels (record : TypeId) (below : List TypeId) :
    (ofLevels record below).records = (record :: below).reverse := by
  induction below generalizing record with
  | nil => rfl
  | cons next rest ih => rw [List.reverse_cons, ← ih next, ofLevels, push, records]

theorem ofStack_push (s : RecordStack) (record : TypeId) : ofStack (s.push record) = (ofStack s).push record := rfl

theorem pop?_ofStack (s : RecordStack) : (ofStack s).pop? = s.pop?.map ofStack := by
  obtain ⟨top, below⟩ := s
  cases below <;> rfl

theorem move_ofStack (s : RecordStack) (m : Move) : (ofStack s).move m = ofStack (s.move m) := by
  cases m with
  | descend record => exact (ofStack_push s record).symm
  | ascend => rw [move, pop?_ofStack, RecordStack.move, Option.getD_map]

/-- Both forms of the stack move alike. -/
theorem after_ofStack (s : RecordStack) (moves : List Move) : (ofStack s).after moves = ofStack (s.after moves) :=
  List.foldl_hom ofStack move_ofStack

end LinkedStack

/-! ### The rooted stack -/

namespace ChainContext

/-- Whatever moves follow, a chain opened on a record stays tracked, with that record as the root of its stack, which
holds what a plain list holds after the same moves; and the linked levels of the stack store the right depth.  Paired
moves leave a tracked context as it was, down to its linked levels.  Any moves leave the other contexts as they were. -/
theorem rooted_stack :
    (∀ root moves, ∃ stack : RecordStack,
      (entry root).after moves = .tracked stack ∧
      ((entry root).after moves).records.head? = some root ∧
      ((entry root).after moves).depth = ((entry root).after moves).records.length ∧
      1 ≤ ((entry root).after moves).depth ∧
      ((entry root).after moves).records = moves.foldl Move.onRecords [root] ∧
      (LinkedStack.new root).after moves = .ofStack stack ∧
      (LinkedStack.ofStack stack).top = stack.top ∧
      (LinkedStack.ofStack stack).depth = stack.depth ∧
      (LinkedStack.ofStack stack).records = stack.records) ∧
    (∀ stack moves, Move.Paired moves →
      (tracked stack).after moves = .tracked stack ∧
      ∀ linked : LinkedStack, linked.after moves = linked) ∧
    (∀ moves, untracked.after moves = .untracked ∧ invalid.after moves = .invalid) := by
  refine ⟨fun root moves => ?opened, fun stack moves hmoves => ?paired, fun moves => ?others⟩
  case opened =>
    have hrun : (entry root).after moves = .tracked (RecordStack.after ⟨root, []⟩ moves) := after_tracked _ moves
    refine ⟨RecordStack.after ⟨root, []⟩ moves, hrun, ?_⟩
    rw [hrun]
    exact ⟨RecordStack.head?_records_after _ moves, (RecordStack.length_records _).symm, Nat.le_add_left 1 _,
      RecordStack.records_after _ moves, LinkedStack.after_ofStack ⟨root, []⟩ moves, LinkedStack.top_ofLevels _ _,
      LinkedStack.depth_ofLevels _ _, LinkedStack.records_ofLevels _ _⟩
  case paired =>
    exact ⟨(after_tracked stack moves).trans
        (congrArg tracked (hmoves.foldl_eq RecordStack.move_descend_ascend stack)),
      fun linked => hmoves.foldl_eq (fun _ _ => rfl) linked⟩
  case others =>
    -- a context that points at no record stays as it is
    exact ⟨List.foldl_fixed' (fun m => by cases m <;> rfl) moves, List.foldl_fixed' (fun m => by cases m <;> rfl) moves⟩

/-- A chain opened on record 4 that goes up too often, and one of depth two that goes down twice and back up. -/
theorem rooted_stack_turns :
    ((entry 4).after [.descend 7, .ascend, .ascend, .descend 9]).records = [4, 9] ∧
    Move.Paired [.descend 8, .descend 4, .ascend, .ascend] ∧
    (tracked ⟨7, [4]⟩).after [.descend 8, .descend 4, .ascend, .ascend] = .tracked ⟨7, [4]⟩ := by
  have hpaired : Move.Paired [.descend 8, .descend 4, .ascend, .ascend] := .nest 8 (.nest 4 .nil .nil) .nil
  obtain ⟨_, _, _, _, _, hrecords, _⟩ := rooted_stack.1 4 [.descend 7, .ascend, .ascend, .descend 9]
  exact ⟨hrecords, hpaired, (rooted_stack.2.1 ⟨7, [4]⟩ _ hpaired).1⟩

end ChainContext

end FluentChain
