import FluentChain.Proofs.Record.Selection
import FluentChain.Proofs.Walk.Descent
import FluentChain.Proofs.Walk.Outcome

/-!
# Descents by name and by offset

A call that descends can name the field by a string literal or by the offset of a selector.  The literal is looked up
in the field table of the record, and the offset has the type that its selector was given when it was built.  Both name
one field (`Names`), and what a descent does is told by the field alone (`settlesTo_of_names`).  So in a record without
aliases the two ways agree (`descend_by_name_or_offset`).
-/

namespace FluentChain

namespace Walk

variable (p : Program) (roles : RoleTable)

/-- The field reference names a field of `record`: by its key, or by a selector of its type that starts from the
record. -/
inductive Names (record : TypeId) (n : NodeId) (field : RecordField) : Prop
  | literal {raw name : String} {table : FieldTable} : p.node? n = some (.literal .string raw) →
      Text.decodeLiteral raw = some name → fieldTable p roles record = .ok table → table.get? name = some field →
      Names record n field
  | offset {args : List NodeId} {arg x sel : NodeId} : roles.reference? p n = some (.offset args) →
      offsetSelector? p args = some (arg, x, sel) → recordOf? p x = some record → recordOf? p arg = field.record →
      Names record n field

/-- The context of a chain after a descent to a field. -/
def descendTo (receiver : ChainContext) (field : RecordField) : ChainContext :=
  match field.record with
  | some target => receiver.descend target
  | none => .invalid

/-- What is wrong with a field that a chain descends to. -/
def descentFaults (field : RecordField) : List DiagnosticKind :=
  if field.record.isSome then [] else [.notAStructField]

/-- A call of a method that descends, whose first argument is `n`; the names that it passes can be decoded. -/
structure DescendCall (record : TypeId) (call sel : NodeId) (args : List NodeId) (n : NodeId) : Prop where
  role : roleOfName? p roles sel = some .descend
  first : args.head? = some n
  decodes : ∀ e ∈ roles.passed p call, Decodes p roles record e

/-- In any state the call is settled with the context `ctx`.  It stores diagnostics of some kinds at `n`, and elsewhere
none but at the references that it passes. -/
def SettlesTo (call sel : NodeId) (args : List NodeId) (receiver : ChainContext) (n : NodeId) (ctx : ChainContext)
    (kinds : List DiagnosticKind) : Prop :=
  ∀ s, ∃ t found, settle p roles call sel args receiver s = .ok ctx t ∧ found.map (·.kind) = kinds ∧
    t.diagnostics.foundAt n = s.diagnostics.foundAt n ++ found ∧
    ∀ e, e ≠ n → e ∉ roles.passed p call → t.diagnostics.foundAt e = s.diagnostics.foundAt e

variable {p roles} {record : TypeId} {n : NodeId} {field : RecordField}

/-! ### One reference -/

theorem reference?_of_literal {raw : String} (h : p.node? n = some (.literal .string raw)) :
    roles.reference? p n = some (.named raw) := by
  unfold RoleTable.reference?
  rw [h]

theorem decodes_of_names (h : Names p roles record n field) : Decodes p roles record n := by
  intro raw table hraw _
  cases h with
  | literal hnode hname _ _ =>
    rw [reference?_of_literal hnode] at hraw
    cases hraw
    rw [hname]
    rfl
  | offset href _ _ _ =>
    rw [href] at hraw
    cases hraw

theorem Undecodable.not_decodes {e : CheckError} (h : Undecodable p roles record n e) :
    ¬ Decodes p roles record n := by
  intro hdecodes
  cases h with
  | literal htable hnode hraw =>
    have hsome := hdecodes _ _ (reference?_of_literal hnode) htable
    rw [hraw] at hsome
    cases hsome

theorem decodeLiteral_eq {raw name : String} (h : Text.decodeLiteral raw = some name) :
    decodeLiteral p n raw = pure name := by
  unfold decodeLiteral
  rw [h]

/-- A field that is there is in order. -/
theorem checkReference_of_names (h : Names p roles record n field) (s : WalkState) :
    checkReference p roles record n s = .ok () { s with diagnostics := s.diagnostics.mark n } := by
  unfold checkReference
  cases h with
  | literal hnode hname htable hfield =>
    simp only [reference?_of_literal hnode, htable, decodeLiteral_eq hname, pure_bind, hfield]
    rfl
  | offset href hselector hx _ =>
    simp only [href, hselector, hx, ne_eq, not_true_eq_false, if_false]
    rfl

/-- The descent to a field depends on the field alone. -/
theorem selectRecord_of_names (h : Names p roles record n field) :
    ∃ found : List Diagnostic, found.map (·.kind) = descentFaults field ∧
      ∀ s, ∃ t, selectRecord p roles record n s = .ok field.record t ∧
        ∀ e, t.diagnostics.foundAt e = s.diagnostics.foundAt e ++ if e = n then found else [] := by
  have hselect : ∃ pos, selectRecord p roles record n = do
      mark n
      match field.record with
      | some target => return some target
      | none =>
        report n ⟨.notAStructField, pos, none⟩
        return none := by
    unfold selectRecord
    cases h with
    | literal hnode hname htable hfield =>
      simp only [reference?_of_literal hnode, htable, decodeLiteral_eq hname, pure_bind, hfield, Option.bind_some]
      exact ⟨p.pos n, rfl⟩
    | @offset args arg x sel href hselector _ hrecord =>
      simp only [href, hselector, hrecord]
      exact ⟨p.pos sel, rfl⟩
  obtain ⟨pos, hselect⟩ := hselect
  rw [hselect]
  unfold descentFaults
  cases field.record with
  | some target =>
    refine ⟨[], rfl, fun s => ⟨_, rfl, fun e => ?_⟩⟩
    rw [ite_self, List.append_nil]
    exact Diagnostics.foundAt_mark s.diagnostics n e
  | none =>
    refine ⟨[⟨.notAStructField, pos, none⟩], rfl, fun s => ⟨_, rfl, fun e => ?_⟩⟩
    have hpush := Diagnostics.foundAt_push (s.diagnostics.mark n) n e ⟨.notAStructField, pos, none⟩
    rw [Diagnostics.foundAt_mark] at hpush
    refine hpush.trans ?_
    by_cases he : e = n
    · rw [if_pos he, if_pos he]
    · rw [if_neg he, if_neg he, List.append_nil]

/-! ### One call -/

/-- Other references that a call passes do not change what is stored at a named field. -/
theorem keeps_foundAt_checkPassed {call e : NodeId} {l : List Diagnostic} (h : Names p roles record n field)
    (he : e = n ∨ e ∉ roles.passed p call) :
    Keeps (fun s => s.diagnostics.foundAt e = l)
      (checkArguments p roles record (roles.fieldArguments p call)) := by
  refine Ensures.forM fun m hm => ?_
  by_cases hme : m = e
  · have hmn : m = n := by
      rcases he with rfl | he
      · exact hme
      · exact absurd (hme ▸ hm) he
    intro s hs
    rw [checkReference_of_names (hmn ▸ h)]
    exact (Diagnostics.foundAt_mark s.diagnostics m e).trans hs
  · exact keeps_foundAt_checkReference_of_ne hme

/-- Where a call descends to a field, just the step to its record stores diagnostics at the named field. -/
theorem foundAt_applyRole_of_names {call e : NodeId} {rest : List NodeId} {receiver : ChainContext}
    {found l : List Diagnostic} (htop : receiver.top? = some record) (h : Names p roles record n field)
    (hselect : ∀ s, ∃ t, selectRecord p roles record n s = .ok field.record t ∧
      ∀ e, t.diagnostics.foundAt e = s.diagnostics.foundAt e ++ if e = n then found else [])
    (he : e = n ∨ e ∉ roles.passed p call) :
    Ensures (fun s => s.diagnostics.foundAt e = l) (applyRole p roles (some .descend) call (n :: rest) receiver)
      (fun ctx t => ctx = descendTo receiver field ∧ t.diagnostics.foundAt e = l ++ if e = n then found else [])
      fun _ _ => True := by
  unfold applyRole
  rw [htop]
  dsimp only
  refine Ensures.bind ((keeps_foundAt_checkPassed h he).weaken (fun _ h => h) (fun _ _ h => h)
    fun _ _ _ => trivial) fun _ => ?_
  intro s hs
  obtain ⟨t, hrun, hstored⟩ := hselect s
  rw [bind_of_ok hrun]
  have hresult := hstored e
  rw [hs] at hresult
  unfold descendTo
  cases field.record with
  | some target => exact ⟨rfl, hresult⟩
  | none => exact ⟨rfl, hresult⟩

/-- Only a name that cannot be decoded would stop the call. -/
theorem settle_ne_error_of_names {call sel : NodeId} {args : List NodeId} {receiver : ChainContext}
    (hcall : DescendCall p roles record call sel args n) (htop : receiver.top? = some record)
    (h : Names p roles record n field) (s : WalkState) (e : CheckError) (t : WalkState) :
    settle p roles call sel args receiver s ≠ .error e t := by
  intro hrun
  have hstops := (throws_applyRole _ call args receiver).of_error trivial (applyRole_of_settle_error hrun)
  rw [hcall.role] at hstops
  cases hstops with
  | entry hentry _ => cases hentry
  | @passed other m _ _ htop' hm hundecodable =>
    cases htop.symm.trans htop'
    exact absurd (hcall.decodes m hm) hundecodable.not_decodes
  | @selected other m _ _ htop' hm hundecodable =>
    cases htop.symm.trans htop'
    cases hcall.first.symm.trans hm
    exact absurd (decodes_of_names h) hundecodable.not_decodes

theorem settlesTo_of_names {call sel : NodeId} {args : List NodeId} {receiver : ChainContext}
    (hcall : DescendCall p roles record call sel args n) (htop : receiver.top? = some record)
    (h : Names p roles record n field) :
    SettlesTo p roles call sel args receiver n (descendTo receiver field) (descentFaults field) := by
  obtain ⟨rest, rfl⟩ := List.head?_eq_some_iff.1 hcall.first
  obtain ⟨found, hkinds, hselect⟩ := selectRecord_of_names h
  intro s
  cases hrun : settle p roles call sel (n :: rest) receiver s with
  | error e t => exact absurd hrun (settle_ne_error_of_names hcall htop h s e t)
  | ok ctx t =>
    obtain ⟨u, happly, rfl⟩ := settle_eq_ok.1 hrun
    rw [hcall.role] at happly
    have hfoundAt : ∀ e, e = n ∨ e ∉ roles.passed p call → ctx = descendTo receiver field ∧
        u.diagnostics.foundAt e = s.diagnostics.foundAt e ++ if e = n then found else [] := fun e he =>
      (foundAt_applyRole_of_names htop h hselect he).of_ok rfl happly
    obtain ⟨rfl, hat⟩ := hfoundAt n (Or.inl rfl)
    refine ⟨_, found, rfl, hkinds, ?_, fun e hne hnot => ?_⟩
    · rw [if_pos rfl] at hat
      exact hat
    · obtain ⟨-, helse⟩ := hfoundAt e (Or.inr hnot)
      rw [if_neg hne, List.append_nil] at helse
      exact helse

/-! ### Both ways -/

/-- Let a record type have a field table, and let none of its fields have an alias and no structs be nested more than 8
deep in it.  A selector of one of the fields is given the type that the field has in the table, unless it meets an
embedded member of the name before.  And wherever a chain points at the record, a call that descends to the field by
name and one that descends to it by the offset of the selector give the chain the same context, and store diagnostics
of the same kinds at their arguments. -/
theorem descend_by_name_or_offset {before : Program} {tag : TagConfig} {fields : List Field} {table : FieldTable}
    {name : String} {x sel : NodeId} {id : TypeId} {obj : Option ObjId} {isDef : Bool}
    (h : PlainRecord before.types tag record fields table) (hfield : table.get? name = some field)
    (hmet : ∀ g ∈ before.types.metBefore name record, g.name ≠ name) (hx : before.type? x = some id)
    (hid : id = record ∨ before.types.get? id = some (.pointer record))
    (hsel : before.node? sel = some (.ident name obj isDef)) (huntyped : before.type? sel = none) :
    ∃ selector after, Build.selector x sel before = .ok selector after ∧ after.type? selector = some field.type ∧
      ∀ (p : Program) (roles : RoleTable), fieldTable p roles record = .ok table →
        p.node? selector = some (.selector x sel) → p.type? selector = some field.type →
        recordOf? p x = some record →
        ∀ raw args literal offset, p.node? literal = some (.literal .string raw) →
          Text.decodeLiteral raw = some name → roles.reference? p offset = some (.offset (selector :: args)) →
          ∀ receiver, receiver.top? = some record →
            (∀ call sel args, DescendCall p roles record call sel args literal →
              SettlesTo p roles call sel args receiver literal (descendTo receiver field) (descentFaults field)) ∧
            ∀ call sel args, DescendCall p roles record call sel args offset →
              SettlesTo p roles call sel args receiver offset (descendTo receiver field) (descentFaults field) := by
  refine ⟨_, _, Build.selector_of_plainRecord h hfield hmet hx hid hsel huntyped, by simp [Program.type?], ?_⟩
  intro p roles htable hnode htype hrecord raw args literal offset hliteral hraw hoffset receiver htop
  have hliteralNames : Names p roles record literal field := .literal hliteral hraw htable hfield
  have hoffsetNames : Names p roles record offset field := by
    have hselector : offsetSelector? p (before.nodes.size :: args) = some (before.nodes.size, x, sel) := by
      unfold offsetSelector?
      simp [hnode]
    refine .offset hoffset hselector hrecord ?_
    unfold recordOf?
    rw [htype, FieldTable.record_of_mem_ofType htable (FieldTable.mem_of_get? hfield)]
    rfl
  exact ⟨fun call sel args hcall => settlesTo_of_names hcall htop hliteralNames,
    fun call sel args hcall => settlesTo_of_names hcall htop hoffsetNames⟩

end Walk

/-! ### A promoted field -/

/-- The dump of `q.From(House{}).In("Home"); q.From(House{}).In(offsetof(House{}.Home))`, where a house has its home
from an embedded user. -/
def PackageDump.housed : PackageDump where
  files := [{
    name := "a"
    decls := [
      .call (.selector
        (.call (.selector (.ident { name := "q", obj := "q", pos := "1:1" })
            { name := "From", obj := "(Query).From", pos := "1:3" } none)
          [.composite "House" [] "1:8"] false none)
        { name := "In", obj := "(Query).In", pos := "1:17" } none)
        [.literal .string "\"Home\"" "1:20"] false none,
      .call (.selector
        (.call (.selector (.ident { name := "q", obj := "q", pos := "2:1" })
            { name := "From", obj := "(Query).From", pos := "2:3" } none)
          [.composite "House" [] "2:8"] false none)
        { name := "In", obj := "(Query).In", pos := "2:17" } none)
        [.call (.ident { name := "offsetof", obj := "offsetof", pos := "2:20" })
          [.selector (.composite "House" [] "2:29") { name := "Home", pos := "2:37" } none] false none]
        false none] }]
  types := PackageDump.sample.types ++ [
    { name := "House", fields := some [{ name := "User", type := "User", embedded := true }] }]
  objects := PackageDump.sample.objects

def Program.housed : Program := (Program.ofDumps [.housed]).toOption.getD {}

/-- The program `Program.housed` as it is when its selector is added. -/
def Program.unhoused : Program := { Program.housed with nodes := Program.housed.nodes.take 19 }

namespace Walk

theorem descend_by_name_or_offset_housed :
    Build.selectionType? .unhoused 17 18 = some 1 ∧
    ∃ ctx kinds, SettlesTo .housed .sample 8 5 [7] (.entry 4) 7 ctx kinds ∧
      SettlesTo .housed .sample 21 14 [20] (.entry 4) 20 ctx kinds := by
  have hplain : PlainRecord Program.unhoused.types ⟨"db", "name"⟩ 4 [⟨"User", 0, true, none, none⟩]
      ⟨[⟨"Home", "Home", 1, some 1, none⟩]⟩ := by decide +kernel
  have hfield : FieldTable.get? ⟨[⟨"Home", "Home", 1, some 1, none⟩]⟩ "Home" =
      some ⟨"Home", "Home", 1, some 1, none⟩ := by decide +kernel
  obtain ⟨htype, hmet, hx, hsel, huntyped⟩ : Build.selectionType? .unhoused 17 18 = some 1 ∧
      (∀ g ∈ Program.unhoused.types.metBefore "Home" 4, g.name ≠ "Home") ∧
      Program.unhoused.type? 17 = some 4 ∧ Program.unhoused.node? 18 = some (.ident "Home" none false) ∧
      Program.unhoused.type? 18 = none := by decide +kernel
  obtain ⟨hsize, hnode, hnodeType, hrecord, htable⟩ : Program.unhoused.nodes.size = 19 ∧
      Program.housed.node? 19 = some (.selector 17 18) ∧ Program.housed.type? 19 = some 1 ∧
      recordOf? .housed 17 = some 4 ∧
      fieldTable .housed .sample 4 = .ok ⟨[⟨"Home", "Home", 1, some 1, none⟩]⟩ := by decide +kernel
  obtain ⟨hname, hliteral, hdecodes, hpassed⟩ : roleOfName? .housed .sample 5 = some .descend ∧
      Program.housed.node? 7 = some (.literal .string "\"Home\"") ∧ Text.decodeLiteral "\"Home\"" = some "Home" ∧
      RoleTable.sample.passed .housed 8 = [7] := by decide +kernel
  obtain ⟨hoffset, hreference, hpassedOffset⟩ : roleOfName? .housed .sample 14 = some .descend ∧
      RoleTable.sample.reference? .housed 20 = some (.offset [19]) ∧
      RoleTable.sample.passed .housed 21 = [20] := by decide +kernel
  obtain ⟨selector, after, hbuild, -, hways⟩ :=
    descend_by_name_or_offset hplain hfield hmet hx (Or.inl rfl) hsel huntyped
  rw [Build.eq_size_of_selector hbuild, hsize] at hways
  obtain ⟨hbyName, hbyOffset⟩ := hways .housed .sample htable hnode hnodeType hrecord "\"Home\"" [] 7 20 hliteral
    hdecodes hreference (.entry 4) rfl
  refine ⟨htype, _, _, hbyName 8 5 [7] ⟨hname, rfl, ?_⟩, hbyOffset 21 14 [20] ⟨hoffset, rfl, ?_⟩⟩
  · intro e he raw table hraw _
    rw [hpassed] at he
    cases List.mem_singleton.1 he
    cases (reference?_of_literal hliteral).symm.trans hraw
    rw [hdecodes]
    rfl
  · intro e he raw table hraw _
    rw [hpassedOffset] at he
    cases List.mem_singleton.1 he
    cases hreference.symm.trans hraw

end Walk

end FluentChain
