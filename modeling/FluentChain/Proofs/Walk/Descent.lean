import FluentChain.Proofs.Syntax.Lowered
import FluentChain.Proofs.Walk.Faults
import FluentChain.Proofs.Walk.Session

/-!
# Descents

A call that descends pushes the record that its first argument selects, or invalidates the chain.  A field name
selects a field of the record that the chain points at (`SelectsField`), but a field offset is only asked for the
record that its field refers to: one that starts from another record is reported, and the chain descends all the
same (`Strays`).  Every other argument that is reported invalidates the chain (`descend_validated`).
-/

namespace FluentChain

namespace Walk

variable (p : Program) (roles : RoleTable)

/-- The argument selects a field of `record` that refers to the record `target`. -/
def SelectsField (record target : TypeId) (arg : NodeId) : Prop :=
  match roles.reference? p arg with
  | some (.named raw) => ∃ table name field, fieldTable p roles record = .ok table ∧
      Text.decodeLiteral raw = some name ∧ table.get? name = some field ∧ field.record = some target
  | some (.offset args) => ∃ sel x f, offsetSelector? p args = some (sel, x, f) ∧
      recordOf? p x = some record ∧ recordOf? p sel = some target
  | none => False

/-- The argument is a field offset that starts from something else than `record`, at a field that refers to the
record `target`. -/
def Strays (record target : TypeId) (arg : NodeId) : Prop :=
  ∃ args sel x f, roles.reference? p arg = some (.offset args) ∧ offsetSelector? p args = some (sel, x, f) ∧
    recordOf? p x ≠ some record ∧ recordOf? p sel = some target

variable {p roles} {record target : TypeId} {arg : NodeId}

theorem selectedRecord?_eq_some_iff :
    selectedRecord? p roles record arg = some target ↔
      SelectsField p roles record target arg ∨ Strays p roles record target arg := by
  unfold selectedRecord? SelectsField Strays
  cases roles.reference? p arg with
  | none => simp
  | some ref =>
    cases ref with
    | named raw =>
      cases fieldTable p roles record <;> simp [Except.toOption, Option.bind_eq_some_iff]
    | offset args =>
      simp only [Option.bind_eq_bind, Option.bind_eq_some_iff, Prod.exists, Option.some.injEq,
        FieldReference.offset.injEq]
      constructor
      · rintro ⟨sel, x, f, hselector, htarget⟩
        by_cases hx : recordOf? p x = some record
        · exact Or.inl ⟨sel, x, f, hselector, hx, htarget⟩
        · exact Or.inr ⟨args, sel, x, f, rfl, hselector, hx, htarget⟩
      · rintro (⟨sel, x, f, hselector, -, htarget⟩ | ⟨_, sel, x, f, rfl, hselector, -, htarget⟩)
        · exact ⟨sel, x, f, hselector, htarget⟩
        · exact ⟨sel, x, f, hselector, htarget⟩

/-! ### What is stored at the argument -/

section

variable {l : List Diagnostic}

theorem keeps_foundAt_mark (n : NodeId) : Keeps (fun s => s.diagnostics.foundAt arg = l) (mark n) :=
  Ensures.modifyGet fun s hs => (Diagnostics.foundAt_mark s.diagnostics n arg).trans hs

theorem keeps_foundAt_report {n : NodeId} (h : n ≠ arg) (d : Diagnostic) :
    Keeps (fun s => s.diagnostics.foundAt arg = l) (report n d) :=
  Ensures.modifyGet fun s hs => by
    have hkeep := Diagnostics.foundAt_push s.diagnostics n arg d
    rw [if_neg h.symm] at hkeep
    exact hkeep.trans hs

theorem keeps_foundAt_reportTable {n : NodeId} (h : n ≠ arg) (e : FieldTableError) :
    Keeps (fun s => s.diagnostics.foundAt arg = l) (reportTable p n e) := by
  refine Ensures.bind (R := fun _ s => s.diagnostics.foundAt arg = l) (Ensures.get fun _ hs => hs) fun s => ?_
  split
  · exact Ensures.pure fun _ hs => hs
  · exact keeps_foundAt_report h _

/-- The examination of a reference stores nothing elsewhere. -/
theorem keeps_foundAt_checkReference_of_ne {n : NodeId} (hn : n ≠ arg) :
    Keeps (fun s => s.diagnostics.foundAt arg = l) (checkReference p roles record n) := by
  unfold checkReference
  split
  · refine Ensures.bind (keeps_foundAt_mark n) fun _ => ?_
    split
    · exact keeps_foundAt_reportTable hn _
    · refine Ensures.bind (Examinable.keeps_decodeLiteral n _) fun name => ?_
      split
      · exact keeps_foundAt_report hn _
      · exact Ensures.pure fun _ hs => hs
  · refine Ensures.bind (keeps_foundAt_mark n) fun _ => ?_
    split
    · split
      · exact keeps_foundAt_report hn _
      · exact Ensures.pure fun _ hs => hs
    · exact Ensures.pure fun _ hs => hs
  · exact Ensures.pure fun _ hs => hs

/-- What selects a field of the record is in order, and nothing is stored at it. -/
theorem keeps_foundAt_checkReference_of_selects (h : SelectsField p roles record target arg) :
    Keeps (fun s => s.diagnostics.foundAt arg = l) (checkReference p roles record arg) := by
  unfold SelectsField at h
  unfold checkReference
  cases href : roles.reference? p arg with
  | none => exact Ensures.pure fun _ hs => hs
  | some ref =>
    rw [href] at h
    cases ref with
    | named raw =>
      obtain ⟨table, name, field, htable, hname, hfield, -⟩ := h
      refine Ensures.bind (keeps_foundAt_mark arg) fun _ => ?_
      simp only [htable]
      refine Ensures.bind ((Examinable.keeps_decodeLiteral arg raw).and (returns_decodeLiteral arg raw))
        fun name' => Ensures.assume fun hname' => ?_
      cases hname.symm.trans hname'
      simp only [hfield, Option.isNone_some, Bool.false_eq_true, if_false]
      exact Ensures.pure fun _ hs => hs
    | offset args =>
      obtain ⟨sel, x, f, hselector, hx, -⟩ := h
      refine Ensures.bind (keeps_foundAt_mark arg) fun _ => ?_
      simp only [hselector, hx, ne_eq, not_true_eq_false, if_false]
      exact Ensures.pure fun _ hs => hs

/-- The descent to a record stores nothing. -/
theorem keeps_foundAt_selectRecord (h : selectedRecord? p roles record arg = some target) :
    Keeps (fun s => s.diagnostics.foundAt arg = l) (selectRecord p roles record arg) := by
  unfold selectedRecord? at h
  unfold selectRecord
  cases href : roles.reference? p arg with
  | none => exact Ensures.pure fun _ hs => hs
  | some ref =>
    rw [href] at h
    cases ref with
    | named raw =>
      refine Ensures.bind (keeps_foundAt_mark arg) fun _ => ?_
      dsimp only at h ⊢
      cases htable : fieldTable p roles record with
      | error e => simp [htable, Except.toOption] at h
      | ok table =>
        simp only [htable, Except.toOption, Option.bind_eq_bind, Option.bind_some, Option.bind_eq_some_iff] at h
        obtain ⟨name, hname, field, hfield, htarget⟩ := h
        refine Ensures.bind ((Examinable.keeps_decodeLiteral arg raw).and (returns_decodeLiteral arg raw))
          fun name' => Ensures.assume fun hname' => ?_
        cases hname.symm.trans hname'
        simp only [hfield, Option.bind_some, htarget]
        exact Ensures.pure fun _ hs => hs
    | offset args =>
      refine Ensures.bind (keeps_foundAt_mark arg) fun _ => ?_
      obtain ⟨⟨sel, x, f⟩, hselector, htarget⟩ := Option.bind_eq_some_iff.1 h
      simp only [hselector, htarget]
      exact Ensures.pure fun _ hs => hs

end

/-! ### The context after a descent -/

/-- A descent that gives a chain a record to point at stores nothing at its argument, unless it strays. -/
theorem foundAt_of_descend {call : NodeId} {args : List NodeId} {receiver ctx : ChainContext} {s t : WalkState}
    (htop : receiver.top? = some record) (hselects : SelectsField p roles record target arg)
    (h : applyRole p roles (some .descend) call (arg :: args) receiver s = .ok ctx t) :
    t.diagnostics.foundAt arg = s.diagnostics.foundAt arg := by
  have hkeeps : Keeps (fun u => u.diagnostics.foundAt arg = s.diagnostics.foundAt arg)
      (applyRole p roles (some .descend) call (arg :: args) receiver) := by
    unfold applyRole
    rw [htop]
    dsimp only
    have hchecks : Keeps (fun u => u.diagnostics.foundAt arg = s.diagnostics.foundAt arg)
        (checkArguments p roles record (roles.fieldArguments p call)) := by
      refine Ensures.forM fun n _ => ?_
      by_cases hn : n = arg
      · subst hn
        exact keeps_foundAt_checkReference_of_selects hselects
      · exact keeps_foundAt_checkReference_of_ne hn
    refine Ensures.bind hchecks fun _ => ?_
    refine Ensures.bind (keeps_foundAt_selectRecord (selectedRecord?_eq_some_iff.2 (Or.inl hselects))) fun _ => ?_
    split <;> exact Ensures.pure fun _ hu => hu
  exact hkeeps.of_ok rfl h

/-- A call that descends on a chain that points at `record`.  It pushes just the record of a field of `record` that
its first argument selects, or else the one that a straying field offset refers to; and if anything is stored at
the argument, the chain is invalid, unless the argument is a straying field offset, whose record is pushed. -/
theorem descend_validated {call sel : NodeId} {args : List NodeId} {receiver ctx : ChainContext}
    {s t : WalkState} (hrole : roleOfName? p roles sel = some .descend) (htop : receiver.top? = some record)
    (hrun : settle p roles call sel args receiver s = .ok ctx t) :
    (ctx = .invalid ∨ ∃ arg target, args.head? = some arg ∧ ctx = receiver.descend target ∧
      (SelectsField p roles record target arg ∨ Strays p roles record target arg)) ∧
    (∀ arg target, args.head? = some arg → Strays p roles record target arg → ctx = receiver.descend target) ∧
    ∀ arg, args.head? = some arg → (∀ target, ¬ Strays p roles record target arg) →
      t.diagnostics.foundAt arg ≠ s.diagnostics.foundAt arg → ctx = .invalid := by
  obtain ⟨u, happly, rfl⟩ := settle_eq_ok.1 hrun
  rw [hrole] at happly
  have hctx := (returns_applyRole _ call args receiver).of_ok trivial happly
  unfold contextAfter? at hctx
  simp only [htop] at hctx
  have hpushes : ctx = .invalid ∨ ∃ arg target, args.head? = some arg ∧ ctx = receiver.descend target ∧
      (SelectsField p roles record target arg ∨ Strays p roles record target arg) := by
    split at hctx
    · rename_i target hselected
      obtain ⟨arg, harg, htarget⟩ := Option.bind_eq_some_iff.1 hselected
      cases hctx
      exact Or.inr ⟨arg, target, harg, rfl, selectedRecord?_eq_some_iff.1 htarget⟩
    · cases hctx
      exact Or.inl rfl
  refine ⟨hpushes, ?_, ?_⟩
  · intro arg target harg hstrays
    have hselected : selectedRecord? p roles record arg = some target :=
      selectedRecord?_eq_some_iff.2 (Or.inr hstrays)
    rw [harg, Option.bind_some, hselected] at hctx
    exact (Option.some.inj hctx).symm
  · intro arg harg hnot hfound
    rcases hpushes with hinvalid | ⟨arg', target, harg', -, hselects | hstrays⟩
    · exact hinvalid
    · -- what selects a field of the record is in order
      cases harg.symm.trans harg'
      obtain ⟨rest, rfl⟩ := List.head?_eq_some_iff.1 harg
      exact absurd (foundAt_of_descend htop hselects happly) hfound
    · cases harg.symm.trans harg'
      exact absurd hstrays (hnot target)

theorem descend_validated_sample :
    settle .sample .sample 8 5 [7] (.entry 0) {} =
      .ok (.tracked ⟨1, [0]⟩) ⟨[⟨8, .entry 0, .tracked ⟨1, [0]⟩⟩], ⟨[7], []⟩⟩ ∧
    ((.tracked ⟨1, [0]⟩ : ChainContext) = .invalid ∨ ∃ arg target, [7].head? = some arg ∧
      (.tracked ⟨1, [0]⟩ : ChainContext) = (ChainContext.entry 0).descend target ∧
      (SelectsField .sample .sample 0 target arg ∨ Strays .sample .sample 0 target arg)) := by
  have hrun : settle .sample .sample 8 5 [7] (.entry 0) {} =
      .ok (.tracked ⟨1, [0]⟩) ⟨[⟨8, .entry 0, .tracked ⟨1, [0]⟩⟩], ⟨[7], []⟩⟩ := by decide +kernel
  exact ⟨hrun, (descend_validated (by decide +kernel) rfl hrun).1⟩

end Walk

/-! ### A descent that strays -/

/-- The dump of `q.From(User{}).In(offsetof(Office{}.Site)).Pick("Zip")`, where the site of an office is an
address. -/
def PackageDump.astray : PackageDump where
  files := [{
    name := "a"
    decls := [
      .call (.selector
        (.call (.selector
          (.call (.selector (.ident { name := "q", obj := "q", pos := "1:1" })
              { name := "From", obj := "(Query).From", pos := "1:3" } none)
            [.composite "User" [] "1:8"] false none)
          { name := "In", obj := "(Query).In", pos := "1:16" } none)
          [.call (.ident { name := "offsetof", obj := "offsetof", pos := "1:19" })
            [.selector (.composite "Office" [] "1:28") { name := "Site", pos := "1:37" } none] false none]
          false none)
        { name := "Pick", obj := "(Query).Pick", pos := "1:44" } none)
        [.literal .string "\"Zip\"" "1:49"] false none] }]
  types := PackageDump.sample.types ++ [
    { name := "Office", fields := some [{ name := "Site", type := "Address" }] }]
  objects := PackageDump.sample.objects

def Program.astray : Program := (Program.ofDumps [.astray]).toOption.getD {}

/-- The office is no user, and that is reported, but the chain goes on at the address. -/
def WalkState.astray : WalkState where
  resolutions := [⟨12, .entry 0, .tracked ⟨1, [0]⟩⟩, ⟨4, .untracked, .entry 0⟩]
  diagnostics := {
    checked := [11]
    found := [(11, ⟨.typeMismatch, ⟨0, 1, 28⟩, none⟩)] }

/-- An argument can be reported without the chain becoming invalid. -/
theorem Walk.not_invalid_of_reported : ¬ ∀ (p : Program) (roles : RoleTable) (envs : List Environment)
    (s : WalkState), Session p roles envs s → ∀ env ∈ envs, ∀ (call recv sel arg : NodeId) (args : List NodeId)
    (ctx : ChainContext) (t : WalkState), p.methodCall? call = some (recv, sel, arg :: args) →
    roleOfName? p roles sel = some .descend → resolveCall p roles env call s = .ok ctx t →
    (∃ r ∈ t.resolutions, r.call = call ∧ r.receiver.top?.isSome) →
    t.diagnostics.foundAt arg ≠ s.diagnostics.foundAt arg → ctx = .invalid := by
  intro h
  have hrun : resolveCall .astray .sample {} 12 {} = .ok (.tracked ⟨1, [0]⟩) .astray := by decide +kernel
  have hinvalid := h .astray .sample _ {} .start {} (List.mem_singleton_self _) 12 4 5 11 [] _ _
    (by decide +kernel) (by decide +kernel) hrun (by decide +kernel) (by decide +kernel)
  cases hinvalid

end FluentChain
