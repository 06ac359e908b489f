import FluentChain.Proofs.Walk.Invariant

/-!
# What roles do to a context

The context of a call depends on the state of the walk only through the context of its receiver:
`contextAfter?` gives it from the role of the method and the arguments, and `returns_applyRole` says that a role
is applied so.  Which record a descend argument selects is `selectedRecord?`.
-/

namespace FluentChain.Walk

variable (p : Program) (roles : RoleTable)

/-- The record type that the first argument of an entry call opens a chain on. -/
def openedRecord? (args : List NodeId) : Option TypeId := args.head?.bind (recordOf? p)

/-- The record type of the field of `record` that a field reference selects, if it is a record. -/
def selectedRecord? (record : TypeId) (n : NodeId) : Option TypeId :=
  match roles.reference? p n with
  | some (.named raw) => do
    let table ← (fieldTable p roles record).toOption
    let name ← Text.decodeLiteral raw
    (table.get? name).bind (·.record)
  | some (.offset args) => do
    let (arg, _, _) ← offsetSelector? p args
    recordOf? p arg
  | none => none

/-- The context of a call of a method with a role, where its receiver has the context `receiver`.  An entry call
whose argument is no record has none. -/
def contextAfter? (role : Option Role) (args : List NodeId) (receiver : ChainContext) : Option ChainContext :=
  match role, receiver.top? with
  | some .entry, _ => (openedRecord? p args).map .entry
  | some .descend, some record =>
    match args.head?.bind (selectedRecord? p roles record) with
    | some target => some (receiver.descend target)
    | none => some .invalid
  | some .ascend, some _ => some receiver.ascend
  | _, _ => some receiver

variable {p roles}

theorem returns_openChain (call : NodeId) (args : List NodeId) :
    Returns (openChain p call args) fun ctx => (openedRecord? p args).map .entry = some ctx := by
  unfold openChain openedRecord? recordOf?
  dsimp only
  split
  · exact Ensures.throw fun _ _ => trivial
  · split
    · exact Ensures.throw fun _ _ => trivial
    · rename_i arg _ type htype
      split
      · exact Ensures.throw fun _ _ => trivial
      · rename_i record hrecord
        refine Ensures.pure fun _ _ => ?_
        simp [htype, hrecord]

theorem returns_decodeLiteral (n : NodeId) (raw : String) :
    Returns (decodeLiteral p n raw) fun name => Text.decodeLiteral raw = some name := by
  unfold decodeLiteral
  split
  · exact Ensures.pure fun _ _ => ‹_›
  · exact Ensures.throw fun _ _ => trivial

theorem returns_selectRecord (record : TypeId) (n : NodeId) :
    Returns (selectRecord p roles record n) fun target => selectedRecord? p roles record n = target := by
  unfold selectRecord selectedRecord?
  cases roles.reference? p n with
  | none => exact Ensures.pure fun _ _ => rfl
  | some ref =>
    cases ref with
    | named raw =>
      refine returns_bind fun _ => ?_
      cases fieldTable p roles record with
      | error e => exact returns_bind fun _ => Ensures.pure fun _ _ => rfl
      | ok table =>
        refine Ensures.bind (returns_decodeLiteral n raw) fun name => Ensures.given fun hname => ?_
        simp only [Except.toOption, hname, Option.bind_eq_bind, Option.bind_some]
        split
        · exact Ensures.pure fun _ _ => ‹_›
        · exact returns_bind fun _ => Ensures.pure fun _ _ => ‹_›
    | offset args =>
      refine returns_bind fun _ => ?_
      dsimp only
      cases offsetSelector? p args with
      | none => exact Ensures.pure fun _ _ => rfl
      | some parts =>
        obtain ⟨arg, x, sel⟩ := parts
        simp only [Option.bind_eq_bind, Option.bind_some]
        split
        · exact Ensures.pure fun _ _ => ‹_›
        · exact returns_bind fun _ => Ensures.pure fun _ _ => ‹_›

/-- A role that is applied gives the context that `contextAfter?` says. -/
theorem returns_applyRole (role : Option Role) (call : NodeId) (args : List NodeId)
    (receiver : ChainContext) :
    Returns (applyRole p roles role call args receiver)
      fun ctx => contextAfter? p roles role args receiver = some ctx := by
  unfold applyRole contextAfter?
  split
  · exact returns_openChain call args
  · refine returns_bind fun _ => Ensures.pure fun _ _ => ?_
    simp
  · rename_i record htop
    refine returns_bind fun _ => ?_
    simp only [htop]
    cases args with
    | nil => exact Ensures.pure fun _ _ => rfl
    | cons arg rest =>
      refine Ensures.bind (returns_selectRecord record arg) fun target => Ensures.given fun htarget => ?_
      simp only [List.head?_cons, Option.bind_some, htarget]
      split <;> exact Ensures.pure fun _ _ => rfl
  · rename_i htop
    refine Ensures.pure fun _ _ => ?_
    simp [htop]
  · rename_i hentry hpreserve hdescend hascend
    refine Ensures.pure fun _ _ => ?_
    split
    · exact (hentry rfl).elim
    · exact (hdescend _ rfl ‹_›).elim
    · exact (hascend _ rfl ‹_›).elim
    · rfl

end FluentChain.Walk
