import FluentChain.Proofs.Syntax.Lowered
import FluentChain.Proofs.Walk.Faults
import FluentChain.Proofs.Walk.Growth

/-!
# Exact diagnostics

Each method call is settled once, and in a syntax forest no other call uses its references.  So what is stored at
a reference is what its one call found, and nothing is stored anywhere else (`invariant_exact`).
-/

namespace FluentChain.Walk

variable {p : Program} {roles : RoleTable}

/-- How a method call uses references, where the chain points at a record. -/
def callUses (p : Program) (roles : RoleTable) (call : NodeId) : NodeId → Use :=
  match p.methodCall? call with
  | some (_, sel, args) => roleUses p roles (roleOfName? p roles sel) call args
  | none => fun _ => {}

/-- The call was settled on a chain that points at `record`, and it uses the reference `e`. -/
structure UsedBy (p : Program) (roles : RoleTable) (r : Resolution) (record : TypeId) (e : NodeId) : Prop where
  top : r.receiver.top? = some record
  any : (callUses p roles r.call e).any = true

/-- Each call has been settled once, and the references that settled calls use have been examined, each with the
faults that its call found, and no others. -/
structure ExactState (p : Program) (roles : RoleTable) (s : WalkState) : Prop where
  reachable : ∀ r ∈ s.resolutions, p.Reachable r.call
  nodup : (s.resolutions.map (·.call)).Nodup
  checked : ∀ e, s.diagnostics.isChecked e = true ↔ ∃ r ∈ s.resolutions, ∃ record, UsedBy p roles r record e
  found : ∀ r ∈ s.resolutions, ∀ record e, UsedBy p roles r record e →
    s.diagnostics.foundAt e = faults p roles record (callUses p roles r.call e) e
  decodes : ∀ r ∈ s.resolutions, ∀ record e, UsedBy p roles r record e →
    (callUses p roles r.call e).checks = true → Decodes p roles record e
  unchecked : ∀ e, s.diagnostics.isChecked e ≠ true → s.diagnostics.foundAt e = []

/-- From `ds` to `ds'`, a call has been settled: it has used its references and has stored what is wrong with
them. -/
structure Settles (p : Program) (roles : RoleTable) (r : Resolution) (ds ds' : Diagnostics) : Prop where
  checked : ∀ e, ds'.isChecked e = true ↔ ds.isChecked e = true ∨ ∃ record, UsedBy p roles r record e
  found : ∀ record e, UsedBy p roles r record e →
    ds'.foundAt e = faults p roles record (callUses p roles r.call e) e
  decodes : ∀ record e, UsedBy p roles r record e → (callUses p roles r.call e).checks = true →
    Decodes p roles record e
  other : ∀ e, (∀ record, ¬ UsedBy p roles r record e) → ds'.foundAt e = ds.foundAt e

theorem settles_of_untracked {r : Resolution} (htop : r.receiver.top? = none) (ds : Diagnostics) :
    Settles p roles r ds ds := by
  have hnot : ∀ record e, ¬ UsedBy p roles r record e := by
    rintro record e ⟨h, -⟩
    rw [htop] at h
    cases h
  exact ⟨by simp [hnot], fun record e h => absurd h (hnot record e), fun record e h => absurd h (hnot record e),
    fun _ _ => rfl⟩

theorem settles_of_examined {r : Resolution} {record : TypeId} (htop : r.receiver.top? = some record)
    {ds ds' : Diagnostics} (h : Examined p roles record (callUses p roles r.call) ds ds') :
    Settles p roles r ds ds' := by
  have heq : ∀ record' e, UsedBy p roles r record' e → record' = record := by
    rintro record' e ⟨h, -⟩
    rw [htop] at h
    exact (Option.some.inj h).symm
  refine ⟨?_, ?_, ?_, ?_⟩
  · intro e
    rw [h.checked]
    refine or_congr_right ⟨fun hany => ⟨record, htop, hany⟩, ?_⟩
    rintro ⟨record', hused⟩
    exact hused.any
  · intro record' e hused
    rw [heq record' e hused, h.found, if_pos hused.any]
  · intro record' e hused hchecks
    rw [heq record' e hused]
    exact h.decodes e hchecks
  · intro e hnot
    rw [h.found, if_neg fun hany => hnot record ⟨htop, hany⟩]

theorem callUses_of_methodCall? {call recv sel : NodeId} {args : List NodeId}
    (h : p.methodCall? call = some (recv, sel, args)) :
    callUses p roles call = roleUses p roles (roleOfName? p roles sel) call args := by
  unfold callUses
  rw [h]

theorem owns_of_callUses (hp : p.Ordered) {call e : NodeId} (h : (callUses p roles call e).any = true) :
    RoleTable.Owns p call e := by
  cases hcall : p.methodCall? call with
  | none =>
    unfold callUses at h
    rw [hcall] at h
    cases h
  | some parts =>
    rw [callUses_of_methodCall? hcall] at h
    exact owns_of_roleUses hp hcall h

theorem not_mem_of_lookup_eq_none {s : WalkState} {call : NodeId} (h : s.memo.lookup call = none) :
    ∀ r ∈ s.resolutions, r.call ≠ call := by
  rintro r hr rfl
  have := List.lookup_eq_none_iff.1 h (r.call, r.context) (List.mem_map.2 ⟨r, hr, rfl⟩)
  simp at this

namespace ExactState

variable {s : WalkState} {call : NodeId}

/-- Nothing has been found where only a call that is not settled yet will look. -/
theorem fresh (h : ExactState p roles s) (hp : p.IsForest) (hnew : s.memo.lookup call = none) {e : NodeId}
    (he : RoleTable.Owns p call e) : s.diagnostics.foundAt e = [] := by
  refine h.unchecked e ?_
  intro hchecked
  obtain ⟨r, hr, record, hused⟩ := (h.checked e).1 hchecked
  exact not_mem_of_lookup_eq_none hnew r hr ((owns_of_callUses hp.ordered hused.any).unique hp he)

/-- A call that is settled for the first time keeps the state exact. -/
theorem remember (h : ExactState p roles s) (hp : p.IsForest) {r : Resolution} (hreach : p.Reachable r.call)
    (hnew : s.memo.lookup r.call = none) {ds : Diagnostics} (hds : Settles p roles r s.diagnostics ds) :
    ExactState p roles ⟨r :: s.resolutions, ds⟩ where
  reachable := by
    intro r' hr'
    rcases List.mem_cons.1 hr' with rfl | hr'
    · exact hreach
    · exact h.reachable r' hr'
  nodup := by
    rw [List.map_cons, List.nodup_cons]
    refine ⟨?_, h.nodup⟩
    intro hmem
    obtain ⟨r', hr', hcall⟩ := List.mem_map.1 hmem
    exact not_mem_of_lookup_eq_none hnew r' hr' hcall
  checked e := by
    rw [hds.checked, h.checked]
    simp only [List.mem_cons, exists_eq_or_imp]
    exact or_comm
  found r' hr' record e hused := by
    rcases List.mem_cons.1 hr' with rfl | hr'
    · exact hds.found record e hused
    · rw [hds.other e]
      · exact h.found r' hr' record e hused
      · intro record' hused'
        -- two calls that use one reference are the same call
        exact not_mem_of_lookup_eq_none hnew r' hr'
          ((owns_of_callUses hp.ordered hused.any).unique hp (owns_of_callUses hp.ordered hused'.any))
  decodes r' hr' record e hused hchecks := by
    rcases List.mem_cons.1 hr' with rfl | hr'
    · exact hds.decodes record e hused hchecks
    · exact h.decodes r' hr' record e hused hchecks
  unchecked e hunchecked := by
    have hnot := mt (hds.checked e).2 hunchecked
    refine (hds.other e fun record hused => hnot (Or.inr ⟨record, hused⟩)).trans ?_
    exact h.unchecked e fun hchecked => hnot (Or.inl hchecked)

end ExactState

theorem invariant_exact (hp : p.IsForest) :
    Invariant p roles p.Reachable (ExactState p roles) (fun _ _ => True) fun _ => True where
  child hn hc := hn.child hc
  untracked := trivial
  known _ _ := trivial
  settle := by
    intro call recv sel args receiver hreach hcall _
    refine Ensures.intro ?_ fun _ _ _ _ _ => trivial
    rintro s ctx t ⟨hs, hnew⟩ hrun
    obtain ⟨u, hu, rfl⟩ := settle_eq_ok.1 hrun
    refine ⟨?_, trivial⟩
    rw [resolutions_of_applyRole hu]
    refine hs.remember hp hreach hnew ?_
    cases htop : receiver.top? with
    | none =>
      have hkeep : Keeps (fun v => v.diagnostics = s.diagnostics)
          (applyRole p roles (roleOfName? p roles sel) call args receiver) := by
        refine keeps_applyRole (fun record h => ?_) _ call args
        rw [htop] at h
        cases h
      rw [hkeep.of_ok rfl hu]
      exact settles_of_untracked (r := ⟨call, receiver, ctx⟩) htop _
    | some record =>
      refine settles_of_examined (r := ⟨call, receiver, ctx⟩) htop ?_
      rw [callUses_of_methodCall? hcall]
      refine (ensures_applyRole hp htop ?_).of_ok rfl hu
      intro e he
      exact hs.fresh hp hnew (owns_of_roleUses hp.ordered hcall he)

theorem exactState_empty : ExactState p roles {} where
  reachable r hr := by simp at hr
  nodup := List.nodup_nil
  checked e := by simp [Diagnostics.isChecked]
  found r hr := by simp at hr
  decodes r hr := by simp at hr
  unchecked e _ := rfl

end FluentChain.Walk
