import FluentChain.Check
import FluentChain.Proofs.Record.Fields
import FluentChain.Proofs.Walk.Role
import FluentChain.Proofs.Walk.Session

/-!
# Records on chains

Whatever a chain points at is a record: all contexts that a walk keeps or hands out are `Sound`.  Records come
from the arguments of entry calls, from field offsets and from field tables, and each of these gives types that
refer to themselves.  So the walk asks only structs for their field tables, and never reports a type for not
being one (`NoBareType`).
-/

namespace FluentChain

/-- A stack of records, as deep as it says. -/
structure RecordStack.Sound (types : TypeTable) (stack : RecordStack) : Prop where
  nonempty : stack.records ≠ []
  depth : stack.depth = stack.records.length
  self : ∀ record ∈ stack.records, types.recordType? record = some record
  struct : ∀ record ∈ stack.records, (types.decl? record).isSome ∧ (types.structFields? record).isSome

/-- Nothing, or a stack of records. -/
def ChainContext.Sound (types : TypeTable) : ChainContext → Prop
  | .tracked stack => stack.Sound types
  | _ => True

variable {types : TypeTable}

/-- A stack is sound if its types are their own records, as only structs are records. -/
theorem RecordStack.sound_of_self {stack : RecordStack}
    (h : ∀ record ∈ stack.records, types.recordType? record = some record) : stack.Sound types where
  nonempty := by simp [records]
  depth := (length_records stack).symm
  self := h
  struct record hr := TypeTable.recordType?_eq_self_iff.1 (h record hr)

namespace ChainContext.Sound

/-- A chain that is opened on a record is sound. -/
theorem entry {record : TypeId} (h : types.recordType? record = some record) :
    (ChainContext.entry record).Sound types := by
  refine RecordStack.sound_of_self ?_
  intro r hr
  rw [List.mem_singleton.1 hr]
  exact h

/-- A chain that descends to a record is sound. -/
theorem descend {ctx : ChainContext} (hctx : ctx.Sound types) {record : TypeId}
    (h : types.recordType? record = some record) : (ctx.descend record).Sound types := by
  cases ctx with
  | untracked => trivial
  | invalid => trivial
  | tracked stack =>
    refine RecordStack.sound_of_self ?_
    intro r hr
    rw [RecordStack.records_push] at hr
    rcases List.mem_append.1 hr with hr | hr
    · exact hctx.self r hr
    · rw [List.mem_singleton.1 hr]
      exact h

/-- A chain that ascends is sound, where it has nothing to ascend to as well. -/
theorem ascend {ctx : ChainContext} (hctx : ctx.Sound types) : ctx.ascend.Sound types := by
  cases ctx with
  | untracked => trivial
  | invalid => trivial
  | tracked stack =>
    show RecordStack.Sound types (stack.pop?.getD stack)
    cases hpop : stack.pop? with
    | none => exact hctx
    | some below =>
      refine RecordStack.sound_of_self ?_
      intro r hr
      refine hctx.self r ?_
      rw [RecordStack.records_of_pop? hpop]
      exact List.mem_append_left _ hr

/-- What a sound chain points at is a struct, so it has fields to look for. -/
theorem isSome_structFields? {ctx : ChainContext} (hctx : ctx.Sound types) {record : TypeId}
    (htop : ctx.top? = some record) : (types.structFields? record).isSome := by
  cases ctx with
  | untracked => cases htop
  | invalid => cases htop
  | tracked stack =>
    cases htop
    exact (hctx.struct stack.top (by simp [RecordStack.records])).2

end ChainContext.Sound

namespace Walk

variable {p : Program} {roles : RoleTable}

/-- The record of an expression is its own record. -/
theorem recordType?_of_recordOf? {x : NodeId} {record : TypeId} (h : recordOf? p x = some record) :
    p.types.recordType? record = some record := by
  obtain ⟨type, -, hrecord⟩ := Option.bind_eq_some_iff.1 h
  exact TypeTable.recordType?_self hrecord

/-- The record that an argument selects is its own record, by name or by offset. -/
theorem recordType?_of_selectedRecord? {record target : TypeId} {n : NodeId}
    (h : selectedRecord? p roles record n = some target) : p.types.recordType? target = some target := by
  unfold selectedRecord? at h
  split at h
  · obtain ⟨table, htable, h⟩ := Option.bind_eq_some_iff.1 h
    obtain ⟨name, -, h⟩ := Option.bind_eq_some_iff.1 h
    obtain ⟨field, hfield, hrecord⟩ := Option.bind_eq_some_iff.1 h
    have hok : fieldTable p roles record = .ok table := by
      cases hresult : fieldTable p roles record with
      | ok made =>
        rw [hresult] at htable
        cases htable
        rfl
      | error e =>
        rw [hresult] at htable
        cases htable
    rw [FieldTable.record_of_mem_ofType hok (FieldTable.mem_of_get? hfield)] at hrecord
    exact TypeTable.recordType?_self hrecord
  · obtain ⟨⟨arg, x, sel⟩, -, h⟩ := Option.bind_eq_some_iff.1 h
    exact recordType?_of_recordOf? h
  · cases h

/-- Every role makes a sound context of a sound context. -/
theorem sound_contextAfter? {role : Option Role} {args : List NodeId} {receiver ctx : ChainContext}
    (hreceiver : receiver.Sound p.types) (h : contextAfter? p roles role args receiver = some ctx) :
    ctx.Sound p.types := by
  unfold contextAfter? at h
  split at h
  · obtain ⟨record, hopened, rfl⟩ := Option.map_eq_some_iff.1 h
    obtain ⟨arg, -, hrecord⟩ := Option.bind_eq_some_iff.1 hopened
    exact .entry (recordType?_of_recordOf? hrecord)
  · rename_i record htop
    split at h
    · rename_i target hselected
      obtain ⟨arg, -, htarget⟩ := Option.bind_eq_some_iff.1 hselected
      cases h
      exact hreceiver.descend (recordType?_of_selectedRecord? htarget)
    · cases h
      trivial
  · cases h
    exact hreceiver.ascend
  · cases h
    exact hreceiver

/-- No diagnostic says that a type is no struct. -/
def NoBareType (ds : Diagnostics) : Prop := ∀ x ∈ ds.found, ∀ type, x.2.kind ≠ .noTable (.notAStruct type)

/-- Examining references of a struct never reports that it is no struct. -/
theorem examinable_noBareType {record : TypeId} (h : (p.types.structFields? record).isSome) :
    Examinable p roles record fun s => NoBareType s.diagnostics where
  mark s n hs := by
    intro x hx
    rw [Diagnostics.found_mark] at hx
    exact hs x hx
  report s n d hd hs := by
    intro x hx type hkind
    rcases List.mem_append.1 hx with hx | hx
    · rw [Diagnostics.found_mark] at hx
      exact hs x hx type hkind
    · rw [List.mem_singleton.1 hx] at hkind
      obtain ⟨key, first, second, he⟩ := FieldTable.duplicateKey_of_ofType h (hd _ hkind)
      cases he

/-- The contexts that a walk has kept are sound, and so are those of the receivers it found them from. -/
structure SoundState (p : Program) (s : WalkState) : Prop where
  receiver : ∀ r ∈ s.resolutions, r.receiver.Sound p.types
  context : ∀ r ∈ s.resolutions, r.context.Sound p.types
  found : NoBareType s.diagnostics

theorem soundState_empty : SoundState p {} :=
  ⟨fun r hr => by simp at hr, fun r hr => by simp at hr, fun x hx => by simp at hx⟩

/-- Soundness of contexts is an invariant of the walk. -/
theorem invariant_sound :
    Invariant p roles (fun _ => True) (SoundState p) (fun _ => SoundState p) (ChainContext.Sound p.types) where
  child _ _ := trivial
  untracked := trivial
  known := by
    intro s call ctx hs hmemo
    obtain ⟨r, hr, -, rfl⟩ := exists_resolution_of_lookup hmemo
    exact hs.context r hr
  settle := by
    intro call recv sel args receiver _ hcall hreceiver
    have hexamine : ∀ record, receiver.top? = some record →
        Examinable p roles record fun s => NoBareType s.diagnostics :=
      fun record htop => examinable_noBareType (hreceiver.isSome_structFields? htop)
    have happly := keeps_applyRole hexamine (roleOfName? p roles sel) call args
    refine Ensures.intro ?_ ?_
    · rintro s ctx t ⟨hs, -⟩ hrun
      obtain ⟨u, hu, rfl⟩ := settle_eq_ok.1 hrun
      have hctx := sound_contextAfter? hreceiver ((returns_applyRole _ call args receiver).of_ok trivial hu)
      have hframe := resolutions_of_applyRole hu
      have hfound := happly.of_ok hs.found hu
      refine ⟨⟨?_, ?_, hfound⟩, hctx⟩
      · intro r hr
        rcases List.mem_cons.1 hr with rfl | hr
        · exact hreceiver
        · exact hs.receiver r (hframe ▸ hr)
      · intro r hr
        rcases List.mem_cons.1 hr with rfl | hr
        · exact hctx
        · exact hs.context r (hframe ▸ hr)
    · rintro s e t ⟨hs, -⟩ hrun
      have hu := applyRole_of_settle_error hrun
      have hframe := (keeps_resolutions _ call args receiver s.resolutions).of_error rfl hu
      exact ⟨hframe ▸ hs.receiver, hframe ▸ hs.context, happly.of_error hs.found hu⟩

/-- In any session, the contexts that are kept or handed out are sound, and only structs are asked for their
fields, so that no type is ever reported for not being a struct. -/
theorem contexts_sound (p : Program) (roles : RoleTable) :
    (∀ envs s, Session p roles envs s →
      (∀ x ∈ s.memo, x.2.Sound p.types) ∧
      (∀ env ∈ envs, ∀ obj ctx, env.lookup? obj = some ctx → ctx ≠ .untracked ∧ ctx.Sound p.types) ∧
      (∀ r ∈ s.resolutions, ∀ record, r.receiver.top? = some record →
        (p.types.structFields? record).isSome) ∧
      NoBareType s.diagnostics) ∧
    ∀ ds, p.diagnose roles = .ok ds → NoBareType ds := by
  refine ⟨?_, ?_⟩
  · intro envs s hs
    obtain ⟨hsound, henvs⟩ := invariant_sound.session soundState_empty hs
    refine ⟨?_, ?_, ?_, hsound.found⟩
    · intro x hx
      obtain ⟨r, hr, rfl⟩ := List.mem_map.1 hx
      exact hsound.context r hr
    · intro env henv obj ctx hlookup
      exact ⟨Environment.ne_untracked_of_lookup? hlookup, henvs env henv obj ctx hlookup⟩
    · intro r hr record htop
      exact (hsound.receiver r hr).isSome_structFields? htop
  · intro ds hds
    unfold Program.diagnose at hds
    split at hds
    · rename_i hrun
      cases hds
      exact ((invariant_sound.program fun _ _ => trivial).of_ok soundState_empty hrun).1.found
    · cases hds

theorem contexts_sound_sample :
    Session .sample .sample [{}, {}] .sample ∧ (∀ x ∈ WalkState.sample.memo, x.2.Sound Program.sample.types) ∧
    Program.sample.diagnose .sample = .ok WalkState.sample.diagnostics ∧
    NoBareType WalkState.sample.diagnostics := by
  have hvisit : (Step.visit 12).run .sample .sample {} {} = .ok {} .sample := by decide +kernel
  have hsession : Session .sample .sample [{}, {}] .sample := .done .start (List.mem_singleton_self _) hvisit
  have hdiagnose : Program.sample.diagnose .sample = .ok WalkState.sample.diagnostics := by
    unfold Program.diagnose
    rw [program_sample]
  have hsound := contexts_sound .sample .sample
  exact ⟨hsession, (hsound.1 _ _ hsession).1, hdiagnose, hsound.2 _ hdiagnose⟩

end Walk

end FluentChain
