import FluentChain.Proofs.Walk.Exact

/-!
# Suppressed chains

A descent that selects no record leaves the chain invalid, and no field is checked on an invalid chain.  Where the
argument of such a descent names a field, a diagnostic is stored at it that says why (`suppression_explained`).  An
argument that names none, like a variable, is passed over, and the chain is invalid without any report
(`not_explained_of_variable`).
-/

namespace FluentChain

namespace Walk

variable (p : Program) (roles : RoleTable)

/-- The argument names a field: it is a string, or the field offset of a selector. -/
def NamesField (arg : NodeId) : Prop :=
  match roles.reference? p arg with
  | some (.named _) => True
  | some (.offset args) => (offsetSelector? p args).isSome
  | none => False

/-- If checks are suppressed from this call on, the call is a descent, and where its argument names a field, a
diagnostic is stored there. -/
def Explained (ds : Diagnostics) (r : Resolution) : Prop :=
  r.receiver.top?.isSome → r.context = .invalid → ∃ recv sel args,
    p.methodCall? r.call = some (recv, sel, args) ∧ roleOfName? p roles sel = some .descend ∧
    ∀ arg, args.head? = some arg → NamesField p roles arg → ds.foundAt arg ≠ []

variable {p roles} {record : TypeId} {arg : NodeId}

theorem Explained.mono {ds ds' : Diagnostics} {r : Resolution} (h : Explained p roles ds r)
    (hgrow : ∀ e, ds.foundAt e <+: ds'.foundAt e) : Explained p roles ds' r := by
  intro htop hinvalid
  obtain ⟨recv, sel, args, hcall, hrole, hfound⟩ := h htop hinvalid
  refine ⟨recv, sel, args, hcall, hrole, fun arg harg hnames hnone => ?_⟩
  have hprefix := hgrow arg
  rw [hnone, List.prefix_nil] at hprefix
  exact hfound arg harg hnames hprefix

/-! ### What a descent reports -/

theorem reports_report (n : NodeId) (d : Diagnostic) :
    Ensures (fun _ => True) (report n d) (fun _ t => t.diagnostics.foundAt n ≠ []) fun _ _ => True :=
  Ensures.modifyGet fun s _ => by simp [Diagnostics.foundAt_push]

theorem reports_reportTable (n : NodeId) (e : FieldTableError) :
    Ensures (fun _ => True) (reportTable p n e) (fun _ t => t.diagnostics.foundAt n ≠ []) fun _ _ => True := by
  refine Ensures.bind (R := fun a t => a = t) (Ensures.get fun _ _ => rfl) fun a => ?_
  split
  · rename_i hmem
    refine Ensures.pure ?_
    rintro t rfl
    exact List.ne_nil_of_mem hmem
  · exact (reports_report n _).weaken (fun _ _ => trivial) (fun _ _ h => h) fun _ _ h => h

/-- The descent to a field that is no record is reported. -/
theorem reports_selectRecord (hnames : NamesField p roles arg) :
    Ensures (fun _ => True) (selectRecord p roles record arg)
      (fun target t => target = none → t.diagnostics.foundAt arg ≠ []) fun _ _ => True := by
  unfold NamesField at hnames
  unfold selectRecord
  cases href : roles.reference? p arg with
  | none => simp [href] at hnames
  | some ref =>
    cases ref with
    | named raw =>
      refine ensures_bind fun _ => ?_
      cases fieldTable p roles record with
      | error e => exact Ensures.bind (reports_reportTable arg e) fun _ => Ensures.pure fun _ h _ => h
      | ok table =>
        refine ensures_bind fun name => ?_
        split
        · exact Ensures.pure fun _ _ hnone => by cases hnone
        · exact Ensures.bind (reports_report arg _) fun _ => Ensures.pure fun _ h _ => h
    | offset args =>
      refine ensures_bind fun _ => ?_
      simp only [href] at hnames
      obtain ⟨⟨field, x, sel⟩, hselector⟩ := Option.isSome_iff_exists.1 hnames
      simp only [hselector]
      split
      · exact Ensures.pure fun _ _ hnone => by cases hnone
      · exact Ensures.bind (reports_report arg _) fun _ => Ensures.pure fun _ h _ => h

/-- Only a descent makes an invalid chain of one that points at a record. -/
theorem role_of_invalid {role : Option Role} {args : List NodeId} {receiver : ChainContext}
    (htop : receiver.top? = some record) (h : contextAfter? p roles role args receiver = some .invalid) :
    role = some .descend := by
  have hvalid : receiver ≠ .invalid := by
    rintro rfl
    cases htop
  unfold contextAfter? at h
  split at h
  · obtain ⟨record, -, hentry⟩ := Option.map_eq_some_iff.1 h
    cases hentry
  · rfl
  · cases receiver with
    | tracked stack => cases h
    | untracked | invalid => cases htop
  · exact absurd (Option.some.inj h) hvalid

theorem reports_descent {call : NodeId} {rest : List NodeId} {receiver : ChainContext}
    (htop : receiver.top? = some record) (hnames : NamesField p roles arg) :
    Ensures (fun _ => True) (applyRole p roles (some .descend) call (arg :: rest) receiver)
      (fun ctx t => ctx = .invalid → t.diagnostics.foundAt arg ≠ []) fun _ _ => True := by
  unfold applyRole
  rw [htop]
  refine ensures_bind fun _ => Ensures.bind (reports_selectRecord hnames) fun target => ?_
  cases target with
  | none => exact Ensures.pure fun _ hfound _ => hfound rfl
  | some target =>
    refine Ensures.pure fun _ _ hinvalid => ?_
    cases receiver with
    | tracked stack => cases hinvalid
    | untracked | invalid => cases htop

theorem explained_of_applyRole {call recv sel : NodeId} {args : List NodeId} {receiver ctx : ChainContext}
    {s t : WalkState} (hcall : p.methodCall? call = some (recv, sel, args))
    (h : applyRole p roles (roleOfName? p roles sel) call args receiver s = .ok ctx t) :
    Explained p roles t.diagnostics ⟨call, receiver, ctx⟩ := by
  intro htop hinvalid
  obtain ⟨record, hrecord⟩ := Option.isSome_iff_exists.1 htop
  dsimp only at hinvalid
  subst hinvalid
  have hrole := role_of_invalid hrecord ((returns_applyRole _ call args receiver).of_ok trivial h)
  refine ⟨recv, sel, args, hcall, hrole, fun arg harg hnames => ?_⟩
  obtain ⟨rest, rfl⟩ := List.head?_eq_some_iff.1 harg
  rw [hrole] at h
  exact (reports_descent hrecord hnames).of_ok trivial h rfl

/-! ### What a walk reports -/

theorem invariant_explained :
    Invariant p roles (fun _ => True) (fun s => ∀ r ∈ s.resolutions, Explained p roles s.diagnostics r)
      (fun _ _ => True) fun _ => True where
  child _ _ := trivial
  untracked := trivial
  known _ _ := trivial
  settle := by
    intro call recv sel args receiver _ hcall _
    refine Ensures.intro ?_ fun _ _ _ _ _ => trivial
    rintro s ctx t ⟨hs, -⟩ hrun
    obtain ⟨u, hu, rfl⟩ := settle_eq_ok.1 hrun
    have hgrow : s.GrowsTo u :=
      (keeps_applyRole (fun record _ => examinable_growsTo s record) _ call args).of_ok (.refl s) hu
    have hnew := explained_of_applyRole hcall hu
    refine ⟨fun r hr => ?_, trivial⟩
    rcases List.mem_cons.1 hr with rfl | hr
    · exact hnew
    · rw [resolutions_of_applyRole hu] at hr
      exact (hs r hr).mono hgrow.found

theorem faults_of_not_namesField (h : ¬ NamesField p roles arg) (use : Use) : faults p roles record use arg = [] := by
  unfold NamesField at h
  unfold faults
  cases href : roles.reference? p arg with
  | none => rfl
  | some ref =>
    cases ref with
    | named raw => simp [href] at h
    | offset args =>
      simp only [href, Bool.not_eq_true, Option.isSome_eq_false_iff, Option.isNone_iff_eq_none] at h
      simp only [h]

/-- After a walk, a call that has made an invalid chain of a tracked one is a descent.  If its first argument names
a field, a diagnostic is stored at it; and in a forest none is stored at an argument that names no field. -/
theorem suppression_explained {env : Environment} {s : WalkState} (hrun : Walk.program p roles {} = .ok env s) :
    ∀ r ∈ s.resolutions, ∀ stack, r.receiver = .tracked stack → r.context = .invalid → ∃ recv sel args,
      p.methodCall? r.call = some (recv, sel, args) ∧ roleOfName? p roles sel = some .descend ∧
      (∀ arg, args.head? = some arg → NamesField p roles arg → s.diagnostics.foundAt arg ≠ []) ∧
      (p.IsForest → ∀ arg, args.head? = some arg → ¬ NamesField p roles arg → s.diagnostics.foundAt arg = []) := by
  have hexplained := invariant_explained.program (fun _ _ => trivial) |>.of_ok (by simp) hrun
  intro r hr stack hreceiver hinvalid
  obtain ⟨recv, sel, args, hcall, hrole, hfound⟩ := hexplained.1 r hr (by rw [hreceiver]; rfl) hinvalid
  refine ⟨recv, sel, args, hcall, hrole, hfound, fun hforest arg _ hnames => ?_⟩
  obtain ⟨hs, -⟩ := ((invariant_exact hforest).program fun d hd => ⟨d, hd, .refl d⟩).of_ok exactState_empty hrun
  by_cases hchecked : s.diagnostics.isChecked arg = true
  · obtain ⟨r', hr', record, hused⟩ := (hs.checked arg).1 hchecked
    rw [hs.found r' hr' record arg hused, faults_of_not_namesField hnames]
  · exact hs.unchecked arg hchecked

end Walk

/-! ### Descents to no record -/

/-- The dump of `q.From(User{}).In(arg).Pick("Zip")`, where `f` is a variable that holds a field name. -/
def PackageDump.descending (arg : NodeDump) : PackageDump where
  files := [{
    name := "a"
    decls := [
      .call (.selector
        (.call (.selector
          (.call (.selector (.ident { name := "q", obj := "q", pos := "1:1" })
              { name := "From", obj := "(Query).From", pos := "1:3" } none)
            [.composite "User" [] "1:8"] false none)
          { name := "In", obj := "(Query).In", pos := "1:16" } none)
          [arg] false none)
        { name := "Pick", obj := "(Query).Pick", pos := "1:27" } none)
        [.literal .string "\"Zip\"" "1:32"] false none] }]
  types := PackageDump.sample.types
  objects := PackageDump.sample.objects ++ [{ key := "f", kind := .var, type := "Name" }]

def Program.descending (arg : NodeDump) : Program := (Program.ofDumps [.descending arg]).toOption.getD {}

/-- What a walk finds where the argument is the name of no field. -/
def WalkState.unknownField : WalkState where
  resolutions := [⟨12, .invalid, .invalid⟩, ⟨8, .entry 0, .invalid⟩, ⟨4, .untracked, .entry 0⟩]
  diagnostics := {
    checked := [7]
    found := [(7, ⟨.fieldNotFound, ⟨0, 1, 19⟩, none⟩), (7, ⟨.notAStructField, ⟨0, 1, 19⟩, none⟩)] }

/-- What a walk finds where the argument is a variable. -/
def WalkState.unexplained : WalkState where
  resolutions := [⟨12, .invalid, .invalid⟩, ⟨8, .entry 0, .invalid⟩, ⟨4, .untracked, .entry 0⟩]

namespace Walk

theorem suppression_explained_sample :
    Walk.program (.descending (.literal .string "\"Work\"" "1:19")) .sample {} = .ok {} .unknownField ∧
    ∃ recv sel args,
      (Program.descending (.literal .string "\"Work\"" "1:19")).methodCall? 8 = some (recv, sel, args) ∧
      ∀ arg, args.head? = some arg → NamesField (.descending (.literal .string "\"Work\"" "1:19")) .sample arg →
        WalkState.unknownField.diagnostics.foundAt arg ≠ [] := by
  have hrun : Walk.program (.descending (.literal .string "\"Work\"" "1:19")) .sample {} =
      .ok {} .unknownField := by decide +kernel
  obtain ⟨recv, sel, args, hcall, -, hfound, -⟩ :=
    suppression_explained hrun ⟨8, .entry 0, .invalid⟩ (by decide) ⟨0, []⟩ rfl rfl
  exact ⟨hrun, recv, sel, args, hcall, hfound⟩

/-- In `q.From(User{}).In(f)` the variable is no field, and nothing says so. -/
theorem not_explained_of_variable : ¬ ∀ (ds : List PackageDump) (p : Program) (roles : RoleTable) (env : Environment)
    (s : WalkState), Program.ofDumps ds = .ok p → Walk.program p roles {} = .ok env s →
    ∀ r ∈ s.resolutions, ∀ stack, r.receiver = .tracked stack → r.context = .invalid →
    ∀ recv sel args, p.methodCall? r.call = some (recv, sel, args) → ∃ arg ∈ args, s.diagnostics.foundAt arg ≠ [] := by
  intro h
  obtain ⟨hdumps, hrun, hcall⟩ :
      Program.ofDumps [.descending (.ident { name := "f", obj := "f", pos := "1:19" })] =
        .ok (.descending (.ident { name := "f", obj := "f", pos := "1:19" })) ∧
      Walk.program (.descending (.ident { name := "f", obj := "f", pos := "1:19" })) .sample {} =
        .ok {} .unexplained ∧
      (Program.descending (.ident { name := "f", obj := "f", pos := "1:19" })).methodCall? 8 = some (4, 5, [7]) := by
    decide +kernel
  obtain ⟨arg, -, hfound⟩ := h _ _ .sample {} .unexplained hdumps hrun ⟨8, .entry 0, .invalid⟩ (by decide) ⟨0, []⟩ rfl
    rfl 4 5 [7] hcall
  exact hfound rfl

end Walk

end FluentChain
