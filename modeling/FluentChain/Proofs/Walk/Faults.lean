import FluentChain.Proofs.Walk.Reference
import FluentChain.Proofs.Walk.Role

/-!
# Faults of field references

A call uses a field reference in two ways: it checks the reference against the record that the chain points at,
and it descends to the field that the reference names.  `faults` lists what is wrong with a reference that is
used so, whatever the state of the walk.  A call that is settled examines just the references it uses, and
stores just their faults (`ensures_applyRole`).
-/

namespace FluentChain

/-- What a call does with a field reference. -/
structure Use where
  checks : Bool := false
  descends : Bool := false
deriving DecidableEq, Repr

/-- Whether a reference is used at all. -/
def Use.any (use : Use) : Bool := use.checks || use.descends

/-- From `ds` to `ds'`, the expression `n` has been examined and has the diagnostics `l` now; nothing else has
changed. -/
structure Diagnostics.Noted (ds : Diagnostics) (n : NodeId) (l : List Diagnostic) (ds' : Diagnostics) : Prop where
  checked : ∀ e, ds'.isChecked e = true ↔ ds.isChecked e = true ∨ e = n
  self : ds'.foundAt n = l
  other : ∀ e, e ≠ n → ds'.foundAt e = ds.foundAt e

namespace Diagnostics.Noted

variable {ds ds' : Diagnostics} {n : NodeId} {l : List Diagnostic}

theorem mark (ds : Diagnostics) (n : NodeId) : ds.Noted n (ds.foundAt n) (ds.mark n) where
  checked e := isChecked_mark ds n e
  self := foundAt_mark ds n n
  other e _ := foundAt_mark ds n e

theorem push (h : ds.Noted n l ds') (d : Diagnostic) : ds.Noted n (l ++ [d]) (ds'.push n d) where
  checked e := by
    rw [isChecked_push, h.checked, or_assoc, or_self]
  self := by
    rw [foundAt_push, if_pos rfl, h.self]
  other e he := by
    rw [foundAt_push, if_neg he, h.other e he]

end Diagnostics.Noted

namespace Walk

variable (p : Program) (roles : RoleTable)

/-- The diagnostic for a record that has no field table. -/
def tableFault (n : NodeId) (error : FieldTableError) : Diagnostic :=
  ⟨.noTable error, error.pos.getD (p.pos n), error.reference⟩

/-- The diagnostics of a field reference that is used on a record, in the order they are stored. -/
def faults (record : TypeId) (use : Use) (n : NodeId) : List Diagnostic :=
  match roles.reference? p n with
  | some (.named raw) =>
    match fieldTable p roles record with
    | .error e => [tableFault p n e]
    | .ok table =>
      let field := (Text.decodeLiteral raw).bind table.get?
      (if use.checks && field.isNone then [⟨.fieldNotFound, p.pos n, declaredAt p record⟩] else []) ++
        if use.descends && (field.bind (·.record)).isNone then [⟨.notAStructField, p.pos n, none⟩] else []
  | some (.offset args) =>
    match offsetSelector? p args with
    | some (arg, x, sel) =>
      (if use.checks && recordOf? p x ≠ some record then
        [⟨.typeMismatch, p.pos arg, declaredAt p record⟩] else []) ++
        if use.descends && (recordOf? p arg).isNone then [⟨.notAStructField, p.pos sel, none⟩] else []
    | none => []
  | none => []

/-- A field name can be decoded if the record has a field table to look it up in. -/
def Decodes (record : TypeId) (n : NodeId) : Prop :=
  ∀ raw table, roles.reference? p n = some (.named raw) → fieldTable p roles record = .ok table →
    (Text.decodeLiteral raw).isSome

variable {p roles} {record : TypeId} {n : NodeId} {ds : Diagnostics} {l : List Diagnostic}

/-! ### One reference -/

/-- To mark an expression keeps what has been found at it. -/
theorem ensures_mark : Ensures (fun s => s.diagnostics = ds) (mark n)
    (fun _ t => ds.Noted n (ds.foundAt n) t.diagnostics) fun _ _ => True := by
  refine Ensures.modifyGet ?_
  rintro s rfl
  exact .mark _ n

/-- A report comes behind what has been found at the expression. -/
theorem ensures_report (d : Diagnostic) : Ensures (fun s => ds.Noted n l s.diagnostics) (report n d)
    (fun _ t => ds.Noted n (l ++ [d]) t.diagnostics) fun _ _ => True :=
  Ensures.modifyGet fun _ hs => hs.push d

/-- The report that there is no field table is stored once, whether the reference is checked, descended to or both. -/
theorem ensures_reportTable (e : FieldTableError) (h : l = [] ∨ l = [tableFault p n e]) :
    Ensures (fun s => ds.Noted n l s.diagnostics) (reportTable p n e)
      (fun _ t => ds.Noted n [tableFault p n e] t.diagnostics) fun _ _ => True := by
  refine Ensures.bind (R := fun a s => ds.Noted n l s.diagnostics ∧ a.diagnostics.foundAt n = l)
    (Ensures.get fun _ hs => ⟨hs, hs.self⟩) fun a => Ensures.assume fun ha => ?_
  rw [ha]
  rcases h with rfl | rfl
  · exact ensures_report (tableFault p n e)
  · refine (if_pos (List.mem_singleton.2 rfl)).symm ▸ ?_
    exact Ensures.pure fun _ hs => hs

theorem ensures_decodeLiteral {I : WalkState → Prop} (raw : String) :
    Ensures I (decodeLiteral p n raw) (fun name t => I t ∧ Text.decodeLiteral raw = some name)
      fun _ _ => True :=
  (Examinable.keeps_decodeLiteral n raw).and (returns_decodeLiteral n raw)
    |>.weaken (fun _ hs => hs) (fun _ _ hQ => hQ) fun _ _ _ => trivial

/-- A reference that nothing was found at, when it is checked, stores what is wrong with it. -/
theorem ensures_checkReference (href : (roles.reference? p n).isSome) (hfresh : ds.foundAt n = []) :
    Ensures (fun s => s.diagnostics = ds) (checkReference p roles record n)
      (fun _ t => ds.Noted n (faults p roles record { checks := true } n) t.diagnostics)
      fun _ _ => True := by
  obtain ⟨ref, href⟩ := Option.isSome_iff_exists.1 href
  have hmark : Ensures (fun s => s.diagnostics = ds) (mark n) (fun _ t => ds.Noted n [] t.diagnostics)
      fun _ _ => True := hfresh ▸ ensures_mark
  unfold checkReference faults
  rw [href]
  cases ref with
  | named raw =>
    refine Ensures.bind hmark fun _ => ?_
    cases fieldTable p roles record with
    | error e => exact ensures_reportTable e (Or.inl rfl)
    | ok table =>
      refine Ensures.bind (ensures_decodeLiteral raw) fun name => Ensures.assume fun hname => ?_
      simp only [hname, Option.bind_some, Bool.true_and, Bool.false_and, Bool.false_eq_true, if_false,
        List.append_nil]
      split
      · exact ensures_report _
      · exact Ensures.pure fun _ hs => hs
  | offset args =>
    refine Ensures.bind hmark fun _ => ?_
    dsimp only
    cases offsetSelector? p args with
    | none => exact Ensures.pure fun _ hs => hs
    | some parts =>
      simp only [Bool.true_and, Bool.false_and, Bool.false_eq_true, if_false, List.append_nil,
        decide_eq_true_eq]
      split
      · exact ensures_report _
      · exact Ensures.pure fun _ hs => hs

/-- The descent to a field adds what is wrong with it to what is known of its name. -/
theorem ensures_selectRecord (href : (roles.reference? p n).isSome) {checks : Bool}
    (hbefore : ds.foundAt n = if checks then faults p roles record { checks } n else []) :
    Ensures (fun s => s.diagnostics = ds) (selectRecord p roles record n)
      (fun _ t => ds.Noted n (faults p roles record { checks, descends := true } n) t.diagnostics)
      fun _ _ => True := by
  obtain ⟨ref, href⟩ := Option.isSome_iff_exists.1 href
  have hmark : Ensures (fun s => s.diagnostics = ds) (mark n)
      (fun _ t => ds.Noted n (if checks then faults p roles record { checks } n else []) t.diagnostics)
      fun _ _ => True := hbefore ▸ ensures_mark
  unfold selectRecord
  unfold faults at hmark ⊢
  rw [href] at hmark ⊢
  cases ref with
  | named raw =>
    refine Ensures.bind hmark fun _ => ?_
    dsimp only
    cases fieldTable p roles record with
    | error e =>
      -- where the reference has been checked before, the same error is stored already
      refine Ensures.bind (ensures_reportTable e ?_) fun _ => Ensures.pure fun _ hs => hs
      cases checks
      · exact Or.inl rfl
      · exact Or.inr rfl
    | ok table =>
      refine Ensures.bind (ensures_decodeLiteral raw) fun name => Ensures.assume fun hname => ?_
      simp only [hname, Option.bind_some]
      rcases Option.eq_none_or_eq_some ((table.get? name).bind (·.record)) with hrecord | ⟨target, hrecord⟩
      · simp only [hrecord]
        refine Ensures.bind (ensures_report _) fun _ => Ensures.pure fun _ hs => ?_
        cases checks <;> simpa using hs
      · simp only [hrecord]
        refine Ensures.pure fun _ hs => ?_
        cases checks <;> simpa using hs
  | offset args =>
    refine Ensures.bind hmark fun _ => ?_
    dsimp only
    cases offsetSelector? p args with
    | none =>
      refine Ensures.pure fun _ hs => ?_
      cases checks <;> exact hs
    | some parts =>
      dsimp only
      rcases Option.eq_none_or_eq_some (recordOf? p parts.1) with hrecord | ⟨target, hrecord⟩
      · simp only [hrecord]
        refine Ensures.bind (ensures_report _) fun _ => Ensures.pure fun _ hs => ?_
        cases checks <;> simpa using hs
      · simp only [hrecord]
        refine Ensures.pure fun _ hs => ?_
        cases checks <;> simpa using hs

/-- To check a name decodes it, unless the record has no field table. -/
theorem returns_checkReference : Returns (checkReference p roles record n) fun _ => Decodes p roles record n := by
  unfold checkReference Decodes
  cases roles.reference? p n with
  | none => exact Ensures.pure fun _ _ _ _ h => by cases h
  | some ref =>
    cases ref with
    | named raw =>
      refine returns_bind fun _ => ?_
      cases fieldTable p roles record with
      | error e => exact Ensures.intro (fun _ _ _ _ _ _ _ _ h => by cases h) fun _ _ _ _ _ => trivial
      | ok table =>
        refine Ensures.bind (returns_decodeLiteral n raw) fun name => Ensures.given fun hname => ?_
        refine Ensures.intro (fun _ _ _ _ _ raw' _ hraw _ => ?_) fun _ _ _ _ _ => trivial
        cases hraw
        rw [hname]
        rfl
    | offset args => exact Ensures.intro (fun _ _ _ _ _ _ _ h => by cases h) fun _ _ _ _ _ => trivial

/-! ### One call -/

/-- From `ds` to `ds'`, each reference has been used as `uses` says, and stores what is wrong with it; nothing
else has changed. -/
structure Examined (p : Program) (roles : RoleTable) (record : TypeId) (uses : NodeId → Use)
    (ds ds' : Diagnostics) : Prop where
  checked : ∀ e, ds'.isChecked e = true ↔ ds.isChecked e = true ∨ (uses e).any = true
  found : ∀ e, ds'.foundAt e = if (uses e).any then faults p roles record (uses e) e else ds.foundAt e
  decodes : ∀ e, (uses e).checks = true → Decodes p roles record e

/-- How references are used where those in `refs` are checked and the chain descends to `target`. -/
def uses (roles : RoleTable) (p : Program) (refs : List NodeId) (target : Option NodeId) (e : NodeId) : Use where
  checks := decide (e ∈ refs)
  descends := target == some e && (roles.reference? p e).isSome

theorem uses_of_mem {refs : List NodeId} {e : NodeId} (he : e ∈ refs) :
    uses roles p refs none e = { checks := true } := by
  simp [uses, he]

theorem uses_of_not_mem {refs : List NodeId} {e : NodeId} (he : e ∉ refs) : uses roles p refs none e = {} := by
  simp [uses, he]

theorem any_uses {refs : List NodeId} {e : NodeId} : (uses roles p refs none e).any = true ↔ e ∈ refs := by
  simp [uses, Use.any]

/-- To examine no reference changes nothing. -/
theorem Examined.refl : Examined p roles record (uses roles p [] none) ds ds :=
  ⟨by simp [any_uses], by simp [any_uses], by simp [uses]⟩

/-- References that differ are checked one after another, and each stores what is wrong with it. -/
theorem ensures_checkReferences {refs : List NodeId} (hnodup : refs.Nodup)
    (hrefs : ∀ e ∈ refs, (roles.reference? p e).isSome) (hfresh : ∀ e ∈ refs, ds.foundAt e = []) :
    Ensures (fun s => s.diagnostics = ds) (refs.forM (checkReference p roles record))
      (fun _ t => Examined p roles record (uses roles p refs none) ds t.diagnostics) fun _ _ => True := by
  induction refs generalizing ds with
  | nil =>
    refine Ensures.pure ?_
    rintro s rfl
    exact .refl
  | cons n refs ih =>
    -- the first reference is none of the others, so they leave its faults alone
    obtain ⟨hnew, hnodup⟩ := List.nodup_cons.1 hnodup
    have hfirst : Ensures (fun s => s.diagnostics = ds) (checkReference p roles record n)
        (fun _ t => ds.Noted n (faults p roles record { checks := true } n) t.diagnostics ∧
          Decodes p roles record n) fun _ _ => True :=
      (ensures_checkReference (hrefs n (by simp)) (hfresh n (by simp))).and returns_checkReference
    refine Ensures.bind hfirst fun _ => ?_
    rintro s ⟨hnoted, hdecodes⟩
    have hrestFresh : ∀ e ∈ refs, s.diagnostics.foundAt e = [] := by
      intro e he
      rw [hnoted.other e (ne_of_mem_of_not_mem he hnew)]
      exact hfresh e (by simp [he])
    have hrest := ih hnodup (fun e he => hrefs e (by simp [he])) hrestFresh
    refine (hrest.weaken (fun _ hs => hs) (fun _ t ht => ?_) fun _ _ h => h) s rfl
    refine ⟨?_, ?_, ?_⟩
    · intro e
      rw [ht.checked, hnoted.checked, any_uses, any_uses, List.mem_cons, or_assoc]
    · intro e
      rw [ht.found]
      by_cases he : e ∈ refs
      · rw [uses_of_mem he, uses_of_mem (List.mem_cons_of_mem n he)]
        rfl
      · rw [uses_of_not_mem he]
        by_cases hen : e = n
        · subst hen
          rw [uses_of_mem List.mem_cons_self]
          exact hnoted.self
        · rw [uses_of_not_mem (List.not_mem_cons_of_ne_of_not_mem hen he)]
          exact hnoted.other e hen
    · intro e he
      rcases List.mem_cons.1 (of_decide_eq_true he) with rfl | he
      · exact hdecodes
      · exact ht.decodes e (decide_eq_true he)

/-- To descend to a reference stores what is wrong with descending to it, behind what is wrong with its check. -/
theorem ensures_descent {refs : List NodeId} (hfresh : (roles.reference? p n).isSome → ds.foundAt n = []) :
    Ensures (fun s => Examined p roles record (uses roles p refs none) ds s.diagnostics)
      (selectRecord p roles record n)
      (fun _ t => Examined p roles record (uses roles p refs (some n)) ds t.diagnostics) fun _ _ => True := by
  have hother : ∀ e, e ≠ n → uses roles p refs (some n) e = uses roles p refs none e := by
    intro e he
    simp [uses, he.symm]
  intro s hs
  cases href : roles.reference? p n with
  | none =>
    -- a descent to something that is no reference examines nothing
    have huses : uses roles p refs (some n) = uses roles p refs none := by
      funext e
      by_cases he : e = n
      · simp [uses, he, href]
      · exact hother e he
    unfold selectRecord
    rw [href, huses]
    exact hs
  | some ref =>
    have hself : uses roles p refs (some n) n = { checks := decide (n ∈ refs), descends := true } := by
      simp [uses, href]
    have hbefore : s.diagnostics.foundAt n =
        if decide (n ∈ refs) then faults p roles record { checks := decide (n ∈ refs) } n else [] := by
      rw [hs.found, hfresh (by simp [href])]
      simp [uses, Use.any]
    refine ((ensures_selectRecord (by simp [href]) hbefore).weaken (fun _ hs => hs) (fun _ t ht => ?_)
      fun _ _ h => h) s rfl
    refine ⟨?_, ?_, hs.decodes⟩
    · intro e
      rw [ht.checked, hs.checked, or_assoc]
      by_cases he : e = n
      · simp [he, hself, Use.any]
      · simp [hother e he, he]
    · intro e
      by_cases he : e = n
      · subst he
        rw [ht.self, hself]
        simp [Use.any]
      · rw [ht.other e he, hs.found, hother e he]

/-- How a call of a method with a role uses references, where the chain points at a record. -/
def roleUses (p : Program) (roles : RoleTable) (role : Option Role) (call : NodeId) (args : List NodeId) :
    NodeId → Use :=
  match role with
  | some .preserve => uses roles p (roles.passed p call) none
  | some .descend => uses roles p (roles.passed p call) args.head?
  | _ => uses roles p [] none

/-- What is passed to a call as a reference is one. -/
theorem isSome_reference?_of_mem_passed (hp : p.Ordered) {call e : NodeId} (h : e ∈ roles.passed p call) :
    (roles.reference? p e).isSome := by
  obtain ⟨arg, -, hrefers⟩ := (RoleTable.mem_passed_iff hp).1 h
  exact hrefers.isSome_reference?

/-- The references that a call uses stand in its arguments. -/
theorem owns_of_roleUses (hp : p.Ordered) {role : Option Role} {call recv sel : NodeId} {args : List NodeId}
    (hcall : p.methodCall? call = some (recv, sel, args)) {e : NodeId}
    (h : (roleUses p roles role call args e).any = true) : RoleTable.Owns p call e := by
  have howns : ∀ target, (∀ arg, target = some arg → arg ∈ args) →
      (uses roles p (roles.passed p call) target e).any = true → RoleTable.Owns p call e := by
    intro target htarget h
    rcases Bool.or_eq_true_iff.1 h with h | h
    · exact RoleTable.owns_of_mem_passed hp (of_decide_eq_true h)
    · obtain ⟨callee, spread, hnode, -⟩ := Program.methodCall?_eq_some.1 hcall
      have harg := eq_of_beq (Bool.and_eq_true_iff.1 h).1
      exact .argument hnode (htarget e harg)
  unfold roleUses at h
  split at h
  · exact howns none (by simp) h
  · exact howns args.head? (fun arg => List.mem_of_head?) h
  · rw [any_uses] at h
    cases h

/-- A call that is settled uses its references, each for the first time, and stores what is wrong with them. -/
theorem ensures_applyRole (hp : p.IsForest) {role : Option Role} {call : NodeId} {args : List NodeId}
    {receiver : ChainContext} (htop : receiver.top? = some record)
    (hfresh : ∀ e, (roleUses p roles role call args e).any = true → ds.foundAt e = []) :
    Ensures (fun s => s.diagnostics = ds) (applyRole p roles role call args receiver)
      (fun _ t => Examined p roles record (roleUses p roles role call args) ds t.diagnostics)
      fun _ _ => True := by
  have hnothing : Ensures (fun s : WalkState => s.diagnostics = ds) (pure receiver : Walk ChainContext)
      (fun _ t => Examined p roles record (uses roles p [] none) ds t.diagnostics) fun _ _ => True := by
    refine Ensures.pure ?_
    rintro s rfl
    exact .refl
  have hrefs : ∀ e ∈ roles.passed p call, (roles.reference? p e).isSome :=
    fun e he => isSome_reference?_of_mem_passed hp.ordered he
  unfold applyRole
  rw [htop]
  cases role with
  | none => exact hnothing
  | some role =>
    cases role with
    | entry =>
      have hopen : Keeps (fun s => s.diagnostics = ds) (openChain p call args) := keeps_openChain call args
      refine hopen.weaken (fun _ hs => hs) ?_ fun _ _ _ => trivial
      rintro _ t rfl
      exact .refl
    | ascend => exact hnothing
    | preserve =>
      have hpassed : ∀ e ∈ roles.passed p call, ds.foundAt e = [] := fun e he => hfresh e (any_uses.2 he)
      exact Ensures.bind (ensures_checkReferences (RoleTable.nodup_passed hp call) hrefs hpassed) fun _ =>
        Ensures.pure fun _ ht => ht
    | descend =>
      have hpassed : ∀ e ∈ roles.passed p call, ds.foundAt e = [] :=
        fun e he => hfresh e (by simp [roleUses, uses, Use.any, he])
      refine Ensures.bind (ensures_checkReferences (RoleTable.nodup_passed hp call) hrefs hpassed) fun _ => ?_
      cases args with
      | nil => exact Ensures.pure fun _ ht => ht
      | cons arg rest =>
        have hfirst : (roles.reference? p arg).isSome → ds.foundAt arg = [] :=
          fun href => hfresh arg (by simp [roleUses, uses, Use.any, href])
        refine Ensures.bind (ensures_descent hfirst) fun target => ?_
        cases target <;> exact Ensures.pure fun _ ht => ht

end Walk

end FluentChain
