import FluentChain.Check
import FluentChain.Proofs.Build.Bounds
import FluentChain.Proofs.Walk.Padding

/-!
# Where faults are

A walk over a well-formed program examines nodes of it only, and what it finds, or fails on, stands in a file of it
(`placed_diagnose`).  Faults are reported at the nodes that are examined and at fields of structs, and they refer to
fields and to declared names, all of which have positions in range.
-/

namespace FluentChain

variable {b : Bounds} {placed : Bool} {p : Program} {roles : RoleTable}

structure FieldTableError.InRange (b : Bounds) (e : FieldTableError) : Prop where
  pos : ∀ pos ∈ e.pos, pos.InRange b
  reference : ∀ pos ∈ e.reference, pos.InRange b

def FieldTable.InRange (b : Bounds) (table : FieldTable) : Prop := ∀ f ∈ table.fields, ∀ pos ∈ f.pos, pos.InRange b

structure Diagnostic.InRange (b : Bounds) (d : Diagnostic) : Prop where
  pos : d.pos.InRange b
  reference : ∀ pos ∈ d.reference, pos.InRange b

/-- Only nodes in range have been examined, and what has been found stands in range. -/
structure Diagnostics.InRange (b : Bounds) (ds : Diagnostics) : Prop where
  checked : ∀ n ∈ ds.checked, n < b.nodes
  found : ∀ x ∈ ds.found, x.2.InRange b

/-- Where a walk has stopped. -/
def CheckError.pos : CheckError → Pos
  | .badEntry pos _ => pos
  | .undecodableLiteral pos _ => pos

namespace Diagnostics.InRange

variable {ds : Diagnostics}

theorem empty : ({} : Diagnostics).InRange b := ⟨by simp, by simp⟩

theorem mark (h : ds.InRange b) {n : NodeId} (hn : n < b.nodes) : (ds.mark n).InRange b where
  checked e he := by
    have hmark := (isChecked_mark ds n e).1 (by simpa [isChecked] using he)
    rcases hmark with hold | rfl
    · exact h.checked e (by simpa [isChecked] using hold)
    · exact hn
  found := by
    rw [found_mark]
    exact h.found

theorem push (h : ds.InRange b) {n : NodeId} (hn : n < b.nodes) {d : Diagnostic} (hd : d.InRange b) :
    (ds.push n d).InRange b where
  checked := (h.mark hn).checked
  found x hx := by
    rcases List.mem_append.1 hx with hx | hx
    · exact (h.mark hn).found x hx
    · rw [List.mem_singleton.1 hx]
      exact hd

/-- What has been found at a node stands in range. -/
theorem foundAt (h : ds.InRange b) (n : NodeId) : ∀ d ∈ ds.foundAt n, d.InRange b := by
  intro d hd
  obtain ⟨x, hx, rfl⟩ := List.mem_map.1 hd
  exact h.found x (List.mem_filter.1 hx).1

end Diagnostics.InRange

/-! ### Fields -/

namespace Program.WellFormed

variable (hp : p.WellFormed placed)

include hp

/-- A field of a type of the program was declared in range. -/
theorem field_inRange {field : Field} (h : p.types.HasField field) :
    ∀ pos ∈ field.pos, pos.InRange (p.bounds placed) := by
  obtain ⟨id, fields, hfields, hfield⟩ := h
  unfold TypeTable.structFields? at hfields
  split at hfields
  · rename_i hget
    cases hfields
    exact fun pos hpos => (hp.types hget).places pos (List.mem_filterMap.2 ⟨field, hfield, hpos⟩)
  · cases hfields

/-- A field that joins a table keeps it in range, and one that does not is blamed in range. -/
theorem ends_insert (tag : TagConfig) {table : FieldTable} {field : Field} (hfield : p.types.HasField field)
    (htable : table.InRange (p.bounds placed)) :
    Ends (FieldTable.InRange (p.bounds placed)) (FieldTableError.InRange (p.bounds placed))
      (table.insert (FieldTable.recordField p.types tag field)) := by
  unfold FieldTable.insert
  split
  · rename_i first hfirst
    exact ⟨hp.field_inRange hfield, htable first (FieldTable.mem_of_get? hfirst)⟩
  · intro f hf
    rcases List.mem_append.1 hf with hf | hf
    · exact htable f hf
    · rw [List.mem_singleton.1 hf]
      exact hp.field_inRange hfield

/-- Where a record has no field table, the fields that are to blame stand in range. -/
theorem fieldTableError_inRange {tag : TagConfig} {id : TypeId} {e : FieldTableError}
    (h : FieldTable.ofType p.types tag id = .error e) : e.InRange (p.bounds placed) := by
  cases hid : p.types.structFields? id with
  | none =>
    simp only [FieldTable.ofType, hid, Except.error.injEq] at h
    subst h
    exact ⟨by simp [FieldTableError.pos], by simp [FieldTableError.reference]⟩
  | some fields =>
    have hstart : ({} : FieldTable).InRange (p.bounds placed) := by simp [FieldTable.InRange]
    have hends := FieldTable.ends_ofType (Option.isSome_of_eq_some hid)
      (fun _ _ hfield htable => hp.ends_insert tag hfield htable) hstart
    rw [h] at hends
    exact hends

end Program.WellFormed

namespace Walk

/-! ### Examinations -/

/-- Whatever the step finds, or fails on, stands in range. -/
abbrev Placed {α : Type} (b : Bounds) (m : Walk α) : Prop :=
  Ensures (fun s => s.diagnostics.InRange b) m (fun _ t => t.diagnostics.InRange b) fun e _ => e.pos.InRange b

section

variable (hp : p.WellFormed placed)

theorem placed_mark {n : NodeId} (hn : n < b.nodes) : Placed b (mark n) :=
  Ensures.modifyGet fun _ hs => hs.mark hn

theorem placed_report {n : NodeId} (hn : n < b.nodes) {d : Diagnostic} (hd : d.InRange b) : Placed b (report n d) :=
  Ensures.modifyGet fun _ hs => hs.push hn hd

include hp

/-- A record is declared in range, if it is declared. -/
theorem declaredAt_inRange {record : TypeId} : ∀ pos ∈ declaredAt p record, pos.InRange (p.bounds placed) := by
  intro pos hpos
  obtain ⟨decl, hdecl, hpos⟩ := Option.bind_eq_some_iff.1 hpos
  exact (hp.types (TypeTable.get?_of_decl? hdecl)).places pos (by simpa [Ty.places] using hpos)

/-- The report that there is no field table stands in range, and so do the fields that it blames. -/
theorem placed_reportTable {n : NodeId} (hn : n < p.nodes.size) {record : TypeId} {e : FieldTableError}
    (he : fieldTable p roles record = .error e) : Placed (p.bounds placed) (reportTable p n e) := by
  refine Ensures.bind (R := fun _ t => t.diagnostics.InRange (p.bounds placed)) (Ensures.get fun _ hs => hs) fun s => ?_
  split
  · exact Ensures.pure fun _ hs => hs
  · have hrange := hp.fieldTableError_inRange he
    refine placed_report hn ⟨?_, hrange.reference⟩
    cases hat : e.pos with
    | none => exact hp.pos_inRange hn
    | some pos => exact hrange.pos pos hat

/-- A literal that cannot be decoded is a node, and it stands in range. -/
theorem placed_decodeLiteral {n : NodeId} (hn : n < p.nodes.size) (raw : String) :
    Placed (p.bounds placed) (decodeLiteral p n raw) := by
  unfold decodeLiteral
  split
  · exact Ensures.pure fun _ hs => hs
  · exact Ensures.throw fun _ _ => hp.pos_inRange hn

/-- To check a reference finds what stands in range. -/
theorem placed_checkReference {n : NodeId} (hn : n < p.nodes.size) (record : TypeId) :
    Placed (p.bounds placed) (checkReference p roles record n) := by
  unfold checkReference
  split
  · refine Ensures.bind (placed_mark hn) fun _ => ?_
    split
    · exact placed_reportTable hp hn ‹_›
    · refine Ensures.bind (placed_decodeLiteral hp hn _) fun name => ?_
      split
      · exact placed_report hn ⟨hp.pos_inRange hn, declaredAt_inRange hp⟩
      · exact Ensures.pure fun _ hs => hs
  · refine Ensures.bind (placed_mark hn) fun _ => ?_
    split
    · rename_i arg x sel hparts
      split
      · exact placed_report hn
          ⟨hp.pos_inRange (Program.PaddedTo.offsetSelector?_lt hp hparts).1, declaredAt_inRange hp⟩
      · exact Ensures.pure fun _ hs => hs
    · exact Ensures.pure fun _ hs => hs
  · exact Ensures.pure fun _ hs => hs

theorem placed_checkArguments (record : TypeId) (args : List NodeId) :
    Placed (p.bounds placed) (checkArguments p roles record args) := by
  refine Ensures.forM fun n hn => placed_checkReference hp ?_ record
  obtain ⟨arg, -, hn⟩ := List.mem_flatMap.1 hn
  exact RoleTable.lt_size_of_mem_references hn

theorem placed_selectRecord {n : NodeId} (hn : n < p.nodes.size) (record : TypeId) :
    Placed (p.bounds placed) (selectRecord p roles record n) := by
  unfold selectRecord
  split
  · refine Ensures.bind (placed_mark hn) fun _ => ?_
    split
    · exact Ensures.bind (placed_reportTable hp hn ‹_›) fun _ => Ensures.pure fun _ hs => hs
    · refine Ensures.bind (placed_decodeLiteral hp hn _) fun name => ?_
      split
      · exact Ensures.pure fun _ hs => hs
      · exact Ensures.bind (placed_report hn ⟨hp.pos_inRange hn, by simp⟩) fun _ => Ensures.pure fun _ hs => hs
  · refine Ensures.bind (placed_mark hn) fun _ => ?_
    split
    · rename_i arg x sel hparts
      split
      · exact Ensures.pure fun _ hs => hs
      · have hsel := hp.pos_inRange (Program.PaddedTo.offsetSelector?_lt hp hparts).2.2
        exact Ensures.bind (placed_report hn ⟨hsel, by simp⟩) fun _ => Ensures.pure fun _ hs => hs
    · exact Ensures.pure fun _ hs => hs
  · exact Ensures.pure fun _ hs => hs

/-! ### Settled calls -/

/-- A chain that is badly opened is reported at its call. -/
theorem placed_openChain {call : NodeId} (hcall : call < p.nodes.size) (args : List NodeId) :
    Placed (p.bounds placed) (openChain p call args) := by
  have hpos := hp.pos_inRange hcall
  unfold openChain
  dsimp only
  split
  · exact Ensures.throw fun _ _ => hpos
  · split
    · exact Ensures.throw fun _ _ => hpos
    · split
      · exact Ensures.throw fun _ _ => hpos
      · exact Ensures.pure fun _ hs => hs

/-- To apply any role finds what stands in range, as all arguments are nodes. -/
theorem placed_applyRole {call : NodeId} (hcall : call < p.nodes.size) {args : List NodeId}
    (hargs : ∀ arg ∈ args, arg < p.nodes.size) (role : Option Role) (receiver : ChainContext) :
    Placed (p.bounds placed) (applyRole p roles role call args receiver) := by
  unfold applyRole
  split
  · exact placed_openChain hp hcall args
  · exact Ensures.bind (placed_checkArguments hp _ _) fun _ => Ensures.pure fun _ hs => hs
  · refine Ensures.bind (placed_checkArguments hp _ _) fun _ => ?_
    split
    · exact Ensures.pure fun _ hs => hs
    · refine Ensures.bind (placed_selectRecord hp (hargs _ (by simp)) _) fun target => ?_
      split <;> exact Ensures.pure fun _ hs => hs
  · exact Ensures.pure fun _ hs => hs
  · exact Ensures.pure fun _ hs => hs

/-- That all stands in range is an invariant of the walk. -/
theorem invariant_placed :
    Invariant p roles (fun _ => True) (fun s => s.diagnostics.InRange (p.bounds placed))
      (fun e _ => e.pos.InRange (p.bounds placed)) fun _ => True where
  child _ _ := trivial
  untracked := trivial
  known _ _ := trivial
  settle := by
    intro call recv sel args receiver _ hcall _
    obtain ⟨hlt, -, -, hargs⟩ := Program.PaddedTo.parts_lt hp hcall
    have happly : Placed (p.bounds placed) (applyRole p roles (roleOfName? p roles sel) call args receiver) :=
      placed_applyRole hp hlt hargs _ receiver
    refine Ensures.intro ?_ ?_
    · rintro s ctx t ⟨hs, -⟩ hrun
      obtain ⟨u, hu, rfl⟩ := settle_eq_ok.1 hrun
      have ht := happly.of_ok hs hu
      exact ⟨ht, trivial⟩
    · rintro s e t ⟨hs, -⟩ hrun
      exact happly.of_error hs (applyRole_of_settle_error hrun)

end

end Walk

/-- What is found in a well-formed program, or stops the walk over it, stands in a file of it. -/
theorem Program.WellFormed.ends_diagnose (hp : p.WellFormed placed) (roles : RoleTable) :
    Ends (fun ds => ds.InRange (p.bounds placed)) (fun e => e.pos.InRange (p.bounds placed)) (p.diagnose roles) := by
  have hinvariant : Walk.Invariant p roles _ _ _ _ := Walk.invariant_placed hp
  have hrun := hinvariant.program fun _ _ => trivial
  have hstart : ({} : WalkState).diagnostics.InRange (p.bounds placed) := .empty
  unfold Program.diagnose
  split
  · exact (hrun.of_ok hstart ‹_›).1
  · exact hrun.of_error hstart ‹_›

end FluentChain
