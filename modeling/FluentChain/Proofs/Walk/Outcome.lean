import FluentChain.Proofs.Walk.Evaluation

/-!
# How a walk ends

A walk that succeeds has settled the method calls that can be reached from the declarations, and no others, and each
entry call has opened a chain on the record of its argument.  A walk that fails stops at a call that it has come to
(`Comes`): the call opens a chain on no record, or it looks a string literal up in a field table that cannot be decoded
(`Stops`).  Nothing else stops a walk.
-/

namespace FluentChain

/-- What is wrong with the arguments of an entry call. -/
inductive EntryFlaw.Of (p : Program) : List NodeId → EntryFlaw → Prop
  | noArgument : Of p [] .noArgument
  | untyped {arg : NodeId} {rest : List NodeId} : p.type? arg = none → Of p (arg :: rest) .untyped
  | notARecord {arg : NodeId} {rest : List NodeId} {type : TypeId} : p.type? arg = some type →
      p.types.recordType? type = none → Of p (arg :: rest) (.notARecord (p.types.display type))

namespace Walk

/-- The node that a step is about. -/
def Step.node : Step → NodeId
  | .visit n => n
  | .resolve call => call
  | .enter n => n
  | .bind _ value => value

variable (p : Program) (roles : RoleTable)

/-- The steps that the walk of a program comes to, each with the environment and the state in which it is done. -/
inductive Comes : Step → Environment → WalkState → Prop
  | decl {before after : List NodeId} {d : NodeId} {env : Environment} {s : WalkState} :
      p.decls = before ++ d :: after → before.foldlM (fun env n => visit p roles n env) {} {} = .ok env s →
      Comes (.visit d) env s
  | enter {n : NodeId} {env : Environment} {s : WalkState} : Comes (.visit n) env s → Comes (.enter n) env s
  | child {n c : NodeId} {before after : List NodeId} {env inner env' : Environment} {s t u : WalkState} :
      Comes (.visit n) env s → Walk.enter p roles n env s = .ok inner t → p.children n = before ++ c :: after →
      before.foldlM (fun env c => visit p roles c env) inner t = .ok env' u → Comes (.visit c) env' u
  | bind {n : NodeId} {targets values : List NodeId} {before after : List (NodeId × NodeId)}
      {pair : NodeId × NodeId} {env env' : Environment} {s t : WalkState} : Comes (.enter n) env s →
      p.assignment? n = some (targets, values) → targets.zip values = before ++ pair :: after →
      before.foldlM (fun env pair => bindTarget p roles env pair.1 pair.2) env s = .ok env' t →
      Comes (.bind pair.1 pair.2) env' t
  | call {n : NodeId} {env : Environment} {s : WalkState} : Comes (.enter n) env s → p.isCall n = true →
      Comes (.resolve n) env s
  | value {target value : NodeId} {env : Environment} {s : WalkState} : Comes (.bind target value) env s →
      (pairVariable? p roles (target, value)).isSome → p.isCall value = true →
      p.type? value = some roles.builder → Comes (.resolve value) env s
  | receiver {call recv sel : NodeId} {args : List NodeId} {env : Environment} {s : WalkState} :
      Comes (.resolve call) env s → p.methodCall? call = some (recv, sel, args) → s.memo.lookup call = none →
      Comes (.resolve recv) env s

/-- A string literal cannot be decoded, though there is a field table of the record to look it up in. -/
inductive Undecodable (record : TypeId) (n : NodeId) : CheckError → Prop
  | literal {table : FieldTable} {raw : String} : fieldTable p roles record = .ok table →
      p.node? n = some (.literal .string raw) → Text.decodeLiteral raw = none →
      Undecodable record n (.undecodableLiteral (p.pos n) raw)

/-- Why a call of a method with a role cannot be settled, where its receiver has the context `receiver`. -/
inductive Stops (role : Option Role) (call : NodeId) (args : List NodeId) (receiver : ChainContext) :
    CheckError → Prop
  | entry {flaw : EntryFlaw} : role = some .entry → flaw.Of p args →
      Stops role call args receiver (.badEntry (p.pos call) flaw)
  | passed {record : TypeId} {n : NodeId} {e : CheckError} : role = some .preserve ∨ role = some .descend →
      receiver.top? = some record → n ∈ roles.passed p call → Undecodable p roles record n e →
      Stops role call args receiver e
  | selected {record : TypeId} {n : NodeId} {e : CheckError} : role = some .descend →
      receiver.top? = some record → args.head? = some n → Undecodable p roles record n e →
      Stops role call args receiver e

/-- The walk comes to a method call that is not settled yet, and cannot settle it. -/
inductive Stopped : CheckError → Prop
  | intro {call recv sel : NodeId} {args : List NodeId} {env : Environment} {s u : WalkState}
      {receiver : ChainContext} {e : CheckError} :
      Comes p roles (.resolve call) env s → p.methodCall? call = some (recv, sel, args) →
      receiverContext p roles env call recv s = .ok receiver u →
      Stops p roles (roleOfName? p roles sel) call args receiver e → Stopped e

variable {p roles}

/-! ### Why a call is not settled -/

section

variable {record : TypeId} {n : NodeId} {E : CheckError → Prop}

theorem node?_of_reference? {raw : String} (h : roles.reference? p n = some (.named raw)) :
    p.node? n = some (.literal .string raw) := by
  unfold RoleTable.reference? at h
  split at h
  · cases h
    assumption
  · split at h
    · cases h
    · cases h
  · cases h

theorem throws_mark : Throws (mark n) E := Ensures.modifyGet fun _ _ => trivial

theorem throws_report (d : Diagnostic) : Throws (report n d) E := Ensures.modifyGet fun _ _ => trivial

theorem throws_pure {α : Type} (a : α) : Throws (pure a : Walk α) E := Ensures.pure fun _ _ => trivial

theorem throws_reportTable (e : FieldTableError) : Throws (reportTable p n e) E := by
  refine throws_bind (Ensures.get fun _ _ => trivial) fun s => ?_
  split
  · exact throws_pure ()
  · exact throws_report _

theorem throws_decodeLiteral {raw : String} {table : FieldTable} (hnode : p.node? n = some (.literal .string raw))
    (htable : fieldTable p roles record = .ok table) :
    Throws (decodeLiteral p n raw) (Undecodable p roles record n) := by
  unfold decodeLiteral
  split
  · exact throws_pure _
  · rename_i hraw
    exact Ensures.throw fun _ _ => .literal htable hnode hraw

theorem throws_checkReference : Throws (checkReference p roles record n) (Undecodable p roles record n) := by
  unfold checkReference
  split
  · rename_i raw href
    refine throws_bind throws_mark fun _ => ?_
    split
    · exact throws_reportTable _
    · rename_i table htable
      refine throws_bind (throws_decodeLiteral (node?_of_reference? href) htable) fun name => ?_
      split
      · exact throws_report _
      · exact throws_pure ()
  · refine throws_bind throws_mark fun _ => ?_
    split
    · split
      · exact throws_report _
      · exact throws_pure ()
    · exact throws_pure ()
  · exact throws_pure ()

theorem throws_selectRecord : Throws (selectRecord p roles record n) (Undecodable p roles record n) := by
  unfold selectRecord
  split
  · rename_i raw href
    refine throws_bind throws_mark fun _ => ?_
    split
    · exact throws_bind (throws_reportTable _) fun _ => throws_pure _
    · rename_i table htable
      refine throws_bind (throws_decodeLiteral (node?_of_reference? href) htable) fun name => ?_
      split
      · exact throws_pure _
      · exact throws_bind (throws_report _) fun _ => throws_pure _
  · refine throws_bind throws_mark fun _ => ?_
    split
    · split
      · exact throws_pure _
      · exact throws_bind (throws_report _) fun _ => throws_pure _
    · exact throws_pure _
  · exact throws_pure _

end

theorem throws_openChain (call : NodeId) (args : List NodeId) :
    Throws (openChain p call args) fun e => ∃ flaw, flaw.Of p args ∧ e = .badEntry (p.pos call) flaw := by
  unfold openChain
  dsimp only
  split
  · exact Ensures.throw fun _ _ => ⟨_, .noArgument, rfl⟩
  · split
    · exact Ensures.throw fun _ _ => ⟨_, .untyped ‹_›, rfl⟩
    · split
      · exact Ensures.throw fun _ _ => ⟨_, .notARecord ‹_› ‹_›, rfl⟩
      · exact throws_pure _

theorem throws_checkPassed {call : NodeId} {record : TypeId} :
    Throws (checkArguments p roles record (roles.fieldArguments p call)) fun e =>
      ∃ n ∈ roles.passed p call, Undecodable p roles record n e := by
  refine Ensures.forM (I := fun _ => True) fun n hn => ?_
  exact throws_checkReference.weaken (fun _ h => h) (fun _ _ h => h) fun e _ he => ⟨n, hn, he⟩

/-- Nothing but what `Stops` names makes the settling of a call fail. -/
theorem throws_applyRole (role : Option Role) (call : NodeId) (args : List NodeId) (receiver : ChainContext) :
    Throws (applyRole p roles role call args receiver) (Stops p roles role call args receiver) := by
  have hpassed : ∀ record, role = some .preserve ∨ role = some .descend → receiver.top? = some record →
      Throws (checkArguments p roles record (roles.fieldArguments p call)) (Stops p roles role call args receiver) := by
    intro record hrole htop
    refine throws_checkPassed.weaken (fun _ h => h) (fun _ _ h => h) ?_
    rintro e _ ⟨n, hn, he⟩
    exact .passed hrole htop hn he
  unfold applyRole
  split
  · refine (throws_openChain call args).weaken (fun _ h => h) (fun _ _ h => h) ?_
    rintro e _ ⟨flaw, hflaw, rfl⟩
    exact .entry rfl hflaw
  · rename_i record htop
    exact throws_bind (hpassed record (Or.inl rfl) htop) fun _ => throws_pure _
  · rename_i record htop
    refine throws_bind (hpassed record (Or.inr rfl) htop) fun _ => ?_
    cases args with
    | nil => exact throws_pure _
    | cons arg rest =>
      refine throws_bind (throws_selectRecord.weaken (fun _ h => h) (fun _ _ h => h) fun e _ he => ?_) fun target => ?_
      · exact .selected rfl htop rfl he
      · split
        · exact throws_pure _
        · exact throws_pure _
  · exact throws_pure _
  · exact throws_pure _

/-! ### Where a walk stops -/

theorem isCall_of_node? {n callee : NodeId} {args : List NodeId} {spread : Bool}
    (h : p.node? n = some (.call callee args spread)) : p.isCall n = true := by
  unfold Program.isCall
  rw [h]

theorem Comes.stopped_of_resolveCall {call : NodeId} {env : Environment} {s t : WalkState} {e : CheckError}
    (h : Comes p roles (.resolve call) env s) (hrun : resolveCall p roles env call s = .error e t) :
    Stopped p roles e := by
  induction call using Nat.strongRecOn generalizing s t with
  | ind call ih =>
    cases hcall : p.methodCall? call with
    | none =>
      rw [resolveCall_other env hcall] at hrun
      cases hrun
    | some parts =>
      obtain ⟨recv, sel, args⟩ := parts
      cases hmemo : s.memo.lookup call with
      | some known =>
        rw [resolveCall_known env hcall hmemo] at hrun
        cases hrun
      | none =>
        rw [resolveCall_new env hcall hmemo] at hrun
        rcases bind_eq_error.1 hrun with hreceiver | ⟨receiver, u, hreceiver, hsettle⟩
        · unfold receiverContext at hreceiver
          split at hreceiver
          · split at hreceiver
            · rename_i hlt
              exact ih recv hlt (h.receiver hcall hmemo) hreceiver
            · cases hreceiver
          · cases hreceiver
        · have hstops := (throws_applyRole _ call args receiver).of_error trivial (applyRole_of_settle_error hsettle)
          exact .intro h hcall hreceiver hstops

theorem Comes.stopped_of_bindTarget {target value : NodeId} {env : Environment} {s t : WalkState} {e : CheckError}
    (h : Comes p roles (.bind target value) env s) (hrun : bindTarget p roles env target value s = .error e t) :
    Stopped p roles e := by
  cases hvariable : pairVariable? p roles (target, value) with
  | none =>
    rw [bindTarget_of_none env hvariable] at hrun
    cases hrun
  | some obj =>
    rw [bindTarget_of_some env hvariable] at hrun
    have hvalue : Ensures (fun u => u = s) (valueContext p roles env value) (fun _ _ => True)
        fun e _ => Stopped p roles e := by
      unfold valueContext
      split
      · rename_i hnode
        split
        · rename_i htype
          have hcall := isCall_of_node? hnode
          refine Ensures.intro (fun _ _ _ _ _ => trivial) ?_
          rintro u e t rfl hresolve
          exact (h.value (by simp [hvariable]) hcall htype).stopped_of_resolveCall hresolve
        · exact Ensures.pure fun _ _ => trivial
      · exact Ensures.pure fun _ _ => trivial
      · exact Ensures.pure fun _ _ => trivial
      · exact Ensures.pure fun _ _ => trivial
    rcases bind_eq_error.1 hrun with hfail | ⟨ctx, u, -, hreturn⟩
    · exact hvalue.of_error rfl hfail
    · cases hreturn

theorem Comes.stopped_of_enter {n : NodeId} {env : Environment} {s t : WalkState} {e : CheckError}
    (h : Comes p roles (.enter n) env s) (hrun : Walk.enter p roles n env s = .error e t) : Stopped p roles e := by
  cases hassignment : p.assignment? n with
  | some parts =>
    rw [enter_of_assignment hassignment] at hrun
    obtain ⟨before, pair, after, env', s', hpairs, hbefore, hfail⟩ := foldlM_eq_error hrun
    exact (h.bind hassignment hpairs hbefore).stopped_of_bindTarget hfail
  | none =>
    have henter : Ensures (fun u => u = s) (Walk.enter p roles n env) (fun _ _ => True)
        fun e _ => Stopped p roles e := by
      unfold Program.assignment? at hassignment
      unfold Walk.enter
      split
      · exact Ensures.pure fun _ _ => trivial
      · simp [*] at hassignment
      · simp [*] at hassignment
      · rename_i hnode
        have hcall := isCall_of_node? hnode
        refine Ensures.bind (R := fun _ _ => True) (Ensures.intro (fun _ _ _ _ _ => trivial) ?_)
          fun _ => Ensures.pure fun _ _ => trivial
        rintro u e t rfl hresolve
        exact (h.call hcall).stopped_of_resolveCall hresolve
      · exact Ensures.pure fun _ _ => trivial
    exact henter.of_error rfl hrun

theorem Comes.stopped_of_visit (hp : p.Ordered) {n : NodeId} {env : Environment} {s t : WalkState} {e : CheckError}
    (h : Comes p roles (.visit n) env s) (hrun : visit p roles n env s = .error e t) : Stopped p roles e := by
  induction n using Nat.strongRecOn generalizing env s t with
  | ind n ih =>
    rw [visit_eq hp] at hrun
    rcases bind_eq_error.1 hrun with henter | ⟨inner, u, henter, hrest⟩
    · exact h.enter.stopped_of_enter henter
    rcases bind_eq_error.1 hrest with hchildren | ⟨after, v, -, hreturn⟩
    · obtain ⟨before, c, after, env', s', heq, hbefore, hfail⟩ := foldlM_eq_error hchildren
      have hc : c < n := hp n c (by simp [heq])
      exact ih c hc (h.child henter heq hbefore) hfail
    · cases hreturn

/-- A walk that fails has come to a call that it cannot settle. -/
theorem stopped_of_program (hp : p.Ordered) {e : CheckError} {t : WalkState}
    (hrun : Walk.program p roles {} = .error e t) : Stopped p roles e := by
  obtain ⟨before, d, after, env, s, heq, hbefore, hfail⟩ := foldlM_eq_error hrun
  exact (Comes.decl heq hbefore).stopped_of_visit hp hfail

/-- A walk comes to nothing but what can be reached. -/
theorem Comes.reachable {step : Step} {env : Environment} {s : WalkState} (h : Comes p roles step env s) :
    p.Reachable step.node := by
  induction h with
  | @decl before after d _ _ heq _ => exact ⟨d, by simp [heq], .refl d⟩
  | enter _ ih => exact ih
  | child _ _ heq _ ih => exact ih.child (by simp [heq, Step.node])
  | @bind n targets values before after pair _ _ _ _ _ hassignment hpairs _ ih =>
    have hpair : pair ∈ targets.zip values := by simp [hpairs]
    have hvalue : pair.2 ∈ values := (List.of_mem_zip hpair).2
    exact ih.child (by simp [Step.node, children_of_assignment hassignment, hvalue])
  | call _ _ ih => exact ih
  | value _ _ _ _ ih => exact ih
  | receiver _ hcall _ ih =>
    obtain ⟨callee, spread, hnode, hcallee⟩ := Program.methodCall?_eq_some.1 hcall
    have hchild := ih.child (c := callee) (by simp [Step.node, Program.children, hnode, Node.children])
    exact hchild.child (by simp [Step.node, Program.children, hcallee, Node.children])

/-! ### What has been settled -/

/-- Each settled call is a method call that can be reached, and its context is the one after its role. -/
structure SettledState (p : Program) (roles : RoleTable) (s : WalkState) : Prop where
  reachable : ∀ r ∈ s.resolutions, p.Reachable r.call
  context : ∀ r ∈ s.resolutions, ∃ recv sel args, p.methodCall? r.call = some (recv, sel, args) ∧
    contextAfter? p roles (roleOfName? p roles sel) args r.receiver = some r.context

theorem settledState_empty : SettledState p roles {} :=
  ⟨by simp, by simp⟩

theorem invariant_settled : Invariant p roles p.Reachable (SettledState p roles) (fun _ _ => True) fun _ => True where
  child hn hc := hn.child hc
  untracked := trivial
  known _ _ := trivial
  settle := by
    intro call recv sel args receiver hreach hcall _
    refine Ensures.intro ?_ fun _ _ _ _ _ => trivial
    rintro s ctx t ⟨hs, -⟩ hrun
    have hcontext : contextAfter? p roles (roleOfName? p roles sel) args receiver = some ctx := by
      obtain ⟨u, happly, -⟩ := settle_eq_ok.1 hrun
      exact (returns_applyRole _ call args receiver).of_ok trivial happly
    refine ⟨⟨?_, ?_⟩, trivial⟩
    · rw [resolutions_of_settle hrun]
      exact List.forall_mem_cons.2 ⟨hreach, hs.reachable⟩
    · rw [resolutions_of_settle hrun]
      exact List.forall_mem_cons.2 ⟨⟨recv, sel, args, hcall, hcontext⟩, hs.context⟩

theorem settledState_of_program {env : Environment} {s : WalkState} (h : Walk.program p roles {} = .ok env s) :
    SettledState p roles s :=
  ((invariant_settled.program fun d hd => ⟨d, hd, .refl d⟩).of_ok settledState_empty h).1

/-! ### The outcome -/

/-- A call of a method with a role, which can be reached from the declarations, with its receiver and arguments. -/
structure RoleCall (p : Program) (roles : RoleTable) (role : Role) (call recv : NodeId) (args : List NodeId) :
    Prop where
  reachable : p.Reachable call
  method : ∃ sel, p.methodCall? call = some (recv, sel, args) ∧ roleOfName? p roles sel = some role

/-- A method call looks a field up by the name that a string literal stands for. -/
def LooksUp (p : Program) (roles : RoleTable) (role : Role) (call : NodeId) (args : List NodeId) (n : NodeId) : Prop :=
  (role = .preserve ∨ role = .descend) ∧ n ∈ roles.passed p call ∨ role = .descend ∧ args.head? = some n

/-- A string literal that no text can be read from, and that a call looks up in the field table of the record that its
receiver points at when the walk comes to the call. -/
def BadLookup (p : Program) (roles : RoleTable) (pos : Pos) (raw : String) : Prop :=
  ∃ role call recv args n, RoleCall p roles role call recv args ∧ LooksUp p roles role call args n ∧
    p.node? n = some (.literal .string raw) ∧ pos = p.pos n ∧ Text.decodeLiteral raw = none ∧
    ∃ env s receiver t record table, Comes p roles (.resolve call) env s ∧
      receiverContext p roles env call recv s = .ok receiver t ∧ receiver.top? = some record ∧
      fieldTable p roles record = .ok table

theorem RoleCall.reachable_of_looksUp {role : Role} {call recv n : NodeId} {args : List NodeId}
    (h : RoleCall p roles role call recv args) (hp : p.Ordered) (hn : LooksUp p roles role call args n) :
    p.Reachable n := by
  obtain ⟨sel, hcall, -⟩ := h.method
  have hwithin : p.Within call n := by
    rcases hn with ⟨-, hpassed⟩ | ⟨-, hfirst⟩
    · exact (RoleTable.owns_of_mem_passed hp hpassed).within
    · obtain ⟨callee, spread, hnode, -⟩ := Program.methodCall?_eq_some.1 hcall
      have harg : n ∈ args := List.mem_of_head? hfirst
      exact .child (by simp [Program.children_of_node? hnode, Node.children, harg]) (.refl n)
  obtain ⟨d, hd, hcall⟩ := h.reachable
  exact ⟨d, hd, hcall.trans hwithin⟩

theorem openedRecord?_of_flaw {args : List NodeId} {flaw : EntryFlaw} (h : flaw.Of p args) :
    openedRecord? p args = none := by
  unfold Walk.openedRecord? recordOf?
  cases h with
  | noArgument => rfl
  | untyped htype => simp [htype]
  | notARecord htype hrecord => simp [htype, hrecord]

/-- An entry call that stops the walk opens a chain on no record. -/
theorem entry_of_stopped {pos : Pos} {flaw : EntryFlaw} (h : Stopped p roles (.badEntry pos flaw)) :
    ∃ call recv args, RoleCall p roles .entry call recv args ∧ flaw.Of p args ∧ pos = p.pos call := by
  obtain @⟨call, recv, sel, args, env, s, u, receiver, _, hcomes, hcall, -, hstops⟩ := h
  cases hstops with
  | entry hrole hflaw => exact ⟨call, recv, args, ⟨hcomes.reachable, sel, hcall, hrole⟩, hflaw, rfl⟩
  | passed _ _ _ hundecodable => cases hundecodable
  | selected _ _ _ hundecodable => cases hundecodable

theorem badLookup_of_stopped {pos : Pos} {raw : String} (h : Stopped p roles (.undecodableLiteral pos raw)) :
    BadLookup p roles pos raw := by
  obtain @⟨call, recv, sel, args, env, s, t, receiver, _, hcomes, hcall, hreceiver, hstops⟩ := h
  have hlooked : ∀ role record n, roleOfName? p roles sel = some role → LooksUp p roles role call args n →
      receiver.top? = some record → Undecodable p roles record n (.undecodableLiteral pos raw) →
      BadLookup p roles pos raw := by
    intro role record n hrole hlooks htop hundecodable
    cases hundecodable with
    | literal htable hnode hraw =>
      exact ⟨role, call, recv, args, n, ⟨hcomes.reachable, sel, hcall, hrole⟩, hlooks, hnode, rfl, hraw,
        env, s, receiver, t, record, _, hcomes, hreceiver, htop, htable⟩
  cases hstops with
  | @passed record n _ hrole htop hn hundecodable =>
    rcases hrole with hrole | hrole
    · exact hlooked .preserve record n hrole (Or.inl ⟨Or.inl rfl, hn⟩) htop hundecodable
    · exact hlooked .descend record n hrole (Or.inl ⟨Or.inr rfl, hn⟩) htop hundecodable
  | @selected record n _ hrole htop hn hundecodable =>
    exact hlooked .descend record n hrole (Or.inr ⟨rfl, hn⟩) htop hundecodable

/-- A walk that succeeds keeps the contexts of just the method calls that can be reached, and entry calls open chains
on the records of their first arguments.  A walk fails at an entry call that can be reached and whose first argument is
no record, or at a string literal that cannot be decoded and that a call looks up in the field table of the record that
its receiver points at.  So it succeeds where there are no such calls and no such literals. -/
theorem outcome {ds : List PackageDump} (hp : Program.ofDumps ds = .ok p) (roles : RoleTable) :
    (∀ env s, Walk.program p roles {} = .ok env s →
      (∀ call, call ∈ s.memo.map (·.1) ↔ p.Reachable call ∧ (p.methodCall? call).isSome) ∧
      ∀ call recv args, RoleCall p roles .entry call recv args →
        ∃ record, openedRecord? p args = some record ∧ s.memo.lookup call = some (.entry record)) ∧
    (∀ pos flaw s, Walk.program p roles {} = .error (.badEntry pos flaw) s →
      ∃ call recv args, RoleCall p roles .entry call recv args ∧ flaw.Of p args ∧ pos = p.pos call) ∧
    (∀ pos raw s, Walk.program p roles {} = .error (.undecodableLiteral pos raw) s → BadLookup p roles pos raw) ∧
    ((∀ call recv args, RoleCall p roles .entry call recv args → (openedRecord? p args).isSome) →
      (∀ n raw, p.Reachable n → p.node? n = some (.literal .string raw) → (Text.decodeLiteral raw).isSome) →
      ∃ env s, Walk.program p roles {} = .ok env s) := by
  have hordered := (Program.isForest_of_ofDumps hp).ordered
  refine ⟨?_, ?_, ?_, ?_⟩
  · intro env s hrun
    have hs := settledState_of_program hrun
    refine ⟨fun call => ⟨?_, ?_⟩, ?_⟩
    · intro hmem
      obtain ⟨pair, hpair, rfl⟩ := List.mem_map.1 hmem
      obtain ⟨r, hr, rfl⟩ := List.mem_map.1 hpair
      obtain ⟨recv, sel, args, hcall, -⟩ := hs.context r hr
      exact ⟨hs.reachable r hr, by simp [hcall]⟩
    · rintro ⟨hreach, hcall⟩
      obtain ⟨ctx, hctx⟩ := Option.isSome_iff_exists.1 (known_of_program hordered hrun hreach hcall)
      obtain ⟨before, after, hmemo, -⟩ := List.lookup_eq_some_iff.1 hctx
      simp [hmemo]
    · rintro call recv args ⟨hreach, sel, hcall, hrole⟩
      have hknown := known_of_program hordered hrun hreach (by simp [hcall])
      obtain ⟨ctx, hctx⟩ := Option.isSome_iff_exists.1 hknown
      obtain ⟨r, hr, rfl, rfl⟩ := exists_resolution_of_lookup hctx
      obtain ⟨recv', sel', args', hcall', hcontext⟩ := hs.context r hr
      cases hcall.symm.trans hcall'
      rw [hrole] at hcontext
      obtain ⟨record, hrecord, hentry⟩ := Option.map_eq_some_iff.1 hcontext
      exact ⟨record, hrecord, by rw [hctx, hentry]⟩
  · exact fun pos flaw s hrun => entry_of_stopped (stopped_of_program hordered hrun)
  · exact fun pos raw s hrun => badLookup_of_stopped (stopped_of_program hordered hrun)
  · intro hentries hliterals
    cases hrun : Walk.program p roles {} with
    | ok env s => exact ⟨env, s, rfl⟩
    | error e t =>
      have hstopped := stopped_of_program hordered hrun
      cases e with
      | badEntry pos flaw =>
        obtain ⟨call, recv, args, hcall, hflaw, -⟩ := entry_of_stopped hstopped
        have hopens := hentries call recv args hcall
        rw [openedRecord?_of_flaw hflaw] at hopens
        cases hopens
      | undecodableLiteral pos raw =>
        obtain ⟨role, call, recv, args, n, hcall, hlooks, hnode, -, hraw, -⟩ := badLookup_of_stopped hstopped
        have hdecodes := hliterals n raw (hcall.reachable_of_looksUp hordered hlooks) hnode
        rw [hraw] at hdecodes
        cases hdecodes

end Walk

/-- Roles for `Program.sample` in which `Pick` opens a chain too. -/
def RoleTable.openPick : RoleTable :=
  { RoleTable.sample with roles := [(0, .entry), (1, .descend), (2, .entry)] }

namespace Walk

/-- `From(User{})` opens a chain on a user, and `Pick("Zip")` would open one on a string. -/
theorem outcome_sample :
    Program.ofDumps [.sample] = .ok .sample ∧
    (∃ record, openedRecord? .sample [3] = some record ∧ WalkState.sample.memo.lookup 4 = some (.entry record)) ∧
    ∃ call recv args, RoleCall .sample .openPick .entry call recv args ∧
      EntryFlaw.Of .sample args (.notARecord "string") ∧ ⟨0, 1, 1⟩ = Program.sample.pos call := by
  refine ⟨Program.ofDumps_sample, ?_, ?_⟩
  · obtain ⟨hsucceeds, -⟩ := outcome Program.ofDumps_sample .sample
    obtain ⟨hcalls, hentries⟩ := hsucceeds {} .sample program_sample
    obtain ⟨hreach, -⟩ := (hcalls 4).1 (by decide)
    exact hentries 4 0 [3] ⟨hreach, 1, by decide +kernel, by decide +kernel⟩
  · obtain ⟨-, hfails, -⟩ := outcome Program.ofDumps_sample .openPick
    have hrun : Walk.program .sample .openPick {} = .error (.badEntry ⟨0, 1, 1⟩ (.notARecord "string"))
        ⟨[⟨8, .entry 0, .tracked ⟨1, [0]⟩⟩, ⟨4, .untracked, .entry 0⟩], { checked := [7] }⟩ := by
      decide +kernel
    exact hfails _ _ _ hrun

end Walk

end FluentChain
