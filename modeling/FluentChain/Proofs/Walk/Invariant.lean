import FluentChain.Chain.Walk
import FluentChain.Proofs.Ensures
import FluentChain.Proofs.Syntax.Forest

/-!
# Invariants of the walk

A walk changes its state in two ways only: it examines field references, and it settles method calls.  What
both keep is kept by every part of a walk (`Invariant`), so an invariant is proved by looking at one settled
call, and the lemmas of this module carry it through receivers, bindings and subtrees.
-/

namespace FluentChain

/-- Everything that an environment says of a variable satisfies `Q`. -/
def Environment.All (Q : ChainContext → Prop) (env : Environment) : Prop :=
  ∀ obj ctx, env.lookup? obj = some ctx → Q ctx

namespace Environment

variable {Q : ChainContext → Prop} {env : Environment}

theorem all_empty : ({} : Environment).All Q := by
  intro obj ctx h
  simp [lookup?, binding?] at h

/-- A variable that is looked up and found has a context that is tracked, so no untracked one is ever an answer. -/
theorem ne_untracked_of_lookup? {obj : ObjId} {ctx : ChainContext} (h : env.lookup? obj = some ctx) :
    ctx ≠ .untracked := by
  simpa using (Option.filter_eq_some_iff.1 h).2

theorem All.child (h : env.All Q) : env.child.All Q := h

/-- To bind a variable to a context that satisfies `Q` keeps it. -/
theorem All.bind (h : env.All Q) {ctx : ChainContext} (hctx : Q ctx) (obj : ObjId) :
    (env.bind obj ctx).All Q := by
  intro other found hfound
  by_cases heq : other = obj
  · subst heq
    rw [lookup?, binding?_bind_self] at hfound
    have := (Option.filter_eq_some_iff.1 hfound).1
    cases this
    exact hctx
  · rw [lookup?, binding?_bind_of_ne env heq] at hfound
    exact h other found hfound

/-- A node has the context of its variable, or it is untracked. -/
theorem All.contextOf (h : env.All Q) (hQ : Q .untracked) (p : Program) (n : NodeId) :
    Q (env.contextOf p n) := by
  unfold Environment.contextOf
  cases hfound : (p.identObject? n).bind env.lookup? with
  | none => exact hQ
  | some ctx =>
    obtain ⟨obj, -, hobj⟩ := Option.bind_eq_some_iff.1 hfound
    exact h obj ctx hobj

end Environment

/-- A method call is a call of a selector. -/
theorem Program.methodCall?_eq_some {p : Program} {n recv sel : NodeId} {args : List NodeId} :
    p.methodCall? n = some (recv, sel, args) ↔
      ∃ callee spread, p.node? n = some (.call callee args spread) ∧
        p.node? callee = some (.selector recv sel) := by
  unfold methodCall?
  constructor
  · intro h
    split at h
    · split at h
      · cases h
        exact ⟨_, _, ‹_›, ‹_›⟩
      · cases h
    · cases h
  · rintro ⟨callee, spread, hcall, hcallee⟩
    simp only [hcall, hcallee]

theorem Program.mem_children_of_mem_subnodes {p : Program} {n : NodeId} {c : {c : NodeId // c < n}}
    (h : c ∈ p.subnodes n) : c.val ∈ p.children n := by
  obtain ⟨c', hc', hc⟩ := List.mem_filterMap.1 h
  split at hc
  · cases hc
    exact hc'
  · cases hc

namespace Walk

variable {p : Program} {roles : RoleTable}

/-! ### Examinations -/

/-- `I` outlives the examination of field references of a record: no mark and no report on them breaks it. -/
structure Examinable (p : Program) (roles : RoleTable) (record : TypeId) (I : WalkState → Prop) : Prop where
  mark : ∀ s n, I s → I { s with diagnostics := s.diagnostics.mark n }
  report : ∀ s n d, (∀ e, d.kind = .noTable e → fieldTable p roles record = .error e) → I s →
    I { s with diagnostics := s.diagnostics.push n d }

namespace Examinable

variable {record : TypeId} {I : WalkState → Prop}

theorem keeps_mark (h : Examinable p roles record I) (n : NodeId) : Keeps I (Walk.mark n) :=
  Ensures.modifyGet fun s hs => h.mark s n hs

theorem keeps_report (h : Examinable p roles record I) (n : NodeId) {d : Diagnostic}
    (hd : ∀ e, d.kind = .noTable e → fieldTable p roles record = .error e) : Keeps I (Walk.report n d) :=
  Ensures.modifyGet fun s hs => h.report s n d hd hs

theorem keeps_reportTable (h : Examinable p roles record I) (n : NodeId) {e : FieldTableError}
    (he : fieldTable p roles record = .error e) : Keeps I (reportTable p n e) := by
  refine Ensures.bind (R := fun _ => I) (Ensures.get fun _ hs => hs) fun s => ?_
  split
  · exact Ensures.pure fun _ hs => hs
  · refine h.keeps_report n ?_
    intro e' he'
    cases he'
    exact he

theorem keeps_decodeLiteral (n : NodeId) (raw : String) : Keeps I (decodeLiteral p n raw) := by
  unfold decodeLiteral
  split
  · exact Ensures.pure fun _ hs => hs
  · exact Ensures.throw fun _ hs => hs

/-- To check a reference keeps what its marks and reports keep, on a literal and on an offset. -/
theorem keeps_checkReference (h : Examinable p roles record I) (n : NodeId) :
    Keeps I (checkReference p roles record n) := by
  unfold checkReference
  split
  · refine Ensures.bind (h.keeps_mark n) fun _ => ?_
    split
    · exact h.keeps_reportTable n ‹_›
    · refine Ensures.bind (keeps_decodeLiteral n _) fun name => ?_
      split
      · exact h.keeps_report n (by simp)
      · exact Ensures.pure fun _ hs => hs
  · refine Ensures.bind (h.keeps_mark n) fun _ => ?_
    split
    · split
      · exact h.keeps_report n (by simp)
      · exact Ensures.pure fun _ hs => hs
    · exact Ensures.pure fun _ hs => hs
  · exact Ensures.pure fun _ hs => hs

theorem keeps_checkArguments (h : Examinable p roles record I) (args : List NodeId) :
    Keeps I (checkArguments p roles record args) :=
  Ensures.forM fun n _ => h.keeps_checkReference n

/-- To select the record of a descent keeps what its marks and reports keep. -/
theorem keeps_selectRecord (h : Examinable p roles record I) (n : NodeId) :
    Keeps I (selectRecord p roles record n) := by
  unfold selectRecord
  split
  · refine Ensures.bind (h.keeps_mark n) fun _ => ?_
    split
    · exact Ensures.bind (h.keeps_reportTable n ‹_›) fun _ => Ensures.pure fun _ hs => hs
    · refine Ensures.bind (keeps_decodeLiteral n _) fun name => ?_
      split
      · exact Ensures.pure fun _ hs => hs
      · exact Ensures.bind (h.keeps_report n (by simp)) fun _ => Ensures.pure fun _ hs => hs
  · refine Ensures.bind (h.keeps_mark n) fun _ => ?_
    split
    · split
      · exact Ensures.pure fun _ hs => hs
      · exact Ensures.bind (h.keeps_report n (by simp)) fun _ => Ensures.pure fun _ hs => hs
    · exact Ensures.pure fun _ hs => hs
  · exact Ensures.pure fun _ hs => hs

end Examinable

/-- Opening a chain finds nothing, so it keeps everything. -/
theorem keeps_openChain {I : WalkState → Prop} (call : NodeId) (args : List NodeId) :
    Keeps I (openChain p call args) := by
  unfold openChain
  dsimp only
  split
  · exact Ensures.throw fun _ hs => hs
  · split
    · exact Ensures.throw fun _ hs => hs
    · split
      · exact Ensures.throw fun _ hs => hs
      · exact Ensures.pure fun _ hs => hs

/-- Applying a role examines references of the record that the receiver points at, and does nothing else. -/
theorem keeps_applyRole {I : WalkState → Prop} {receiver : ChainContext}
    (h : ∀ record, receiver.top? = some record → Examinable p roles record I) (role : Option Role)
    (call : NodeId) (args : List NodeId) : Keeps I (applyRole p roles role call args receiver) := by
  unfold applyRole
  split
  · exact keeps_openChain call args
  · rename_i record htop
    exact Ensures.bind ((h record htop).keeps_checkArguments _) fun _ => Ensures.pure fun _ hs => hs
  · rename_i record htop
    refine Ensures.bind ((h record htop).keeps_checkArguments _) fun _ => ?_
    split
    · exact Ensures.pure fun _ hs => hs
    · refine Ensures.bind ((h record htop).keeps_selectRecord _) fun target => ?_
      split <;> exact Ensures.pure fun _ hs => hs
  · exact Ensures.pure fun _ hs => hs
  · exact Ensures.pure fun _ hs => hs

/-! ### Settled calls -/

/-- Settled calls are kept by `settle` alone. -/
theorem keeps_resolutions (role : Option Role) (call : NodeId) (args : List NodeId) (receiver : ChainContext)
    (rs : List Resolution) : Keeps (fun s => s.resolutions = rs) (applyRole p roles role call args receiver) :=
  keeps_applyRole (fun _ _ => ⟨fun _ _ hs => hs, fun _ _ _ _ hs => hs⟩) role call args

theorem resolutions_of_applyRole {role : Option Role} {call : NodeId} {args : List NodeId}
    {receiver ctx : ChainContext} {s t : WalkState}
    (h : applyRole p roles role call args receiver s = .ok ctx t) : t.resolutions = s.resolutions :=
  (keeps_resolutions role call args receiver s.resolutions).of_ok rfl h

/-- To settle a call is to apply the role of its method, and then to remember its receiver and its context. -/
theorem settle_eq_ok {call sel : NodeId} {args : List NodeId} {receiver ctx : ChainContext} {s t : WalkState} :
    settle p roles call sel args receiver s = .ok ctx t ↔
      ∃ u, applyRole p roles (roleOfName? p roles sel) call args receiver s = .ok ctx u ∧
        t = { u with resolutions := ⟨call, receiver, ctx⟩ :: u.resolutions } := by
  unfold settle
  rw [bind_eq_ok]
  constructor
  · rintro ⟨ctx', u, happly, hrest⟩
    obtain ⟨_, v, hkeep, hreturn⟩ := bind_eq_ok.1 hrest
    cases hkeep
    cases hreturn
    exact ⟨u, happly, rfl⟩
  · rintro ⟨u, happly, rfl⟩
    exact ⟨ctx, u, happly, rfl⟩

/-- A call fails to be settled where its role fails to be applied, and nothing is remembered. -/
theorem applyRole_of_settle_error {call sel : NodeId} {args : List NodeId} {receiver : ChainContext}
    {s t : WalkState} {e : CheckError} (h : settle p roles call sel args receiver s = .error e t) :
    applyRole p roles (roleOfName? p roles sel) call args receiver s = .error e t := by
  cases happly : applyRole p roles (roleOfName? p roles sel) call args receiver s with
  | ok ctx u =>
    rw [settle_eq_ok.2 ⟨u, happly, rfl⟩] at h
    cases h
  | error e' u =>
    unfold settle at h
    rw [bind_of_error happly] at h
    exact h

/-- A settled call is the last that is remembered. -/
theorem resolutions_of_settle {call sel : NodeId} {args : List NodeId} {receiver ctx : ChainContext}
    {s t : WalkState} (h : settle p roles call sel args receiver s = .ok ctx t) :
    t.resolutions = ⟨call, receiver, ctx⟩ :: s.resolutions := by
  obtain ⟨u, happly, rfl⟩ := settle_eq_ok.1 h
  simp only [resolutions_of_applyRole happly]

theorem memo_of_settle {call sel : NodeId} {args : List NodeId} {receiver ctx : ChainContext}
    {s t : WalkState} (h : settle p roles call sel args receiver s = .ok ctx t) :
    t.memo = (call, ctx) :: s.memo := by
  simp [WalkState.memo, resolutions_of_settle h]

/-- A context that is known was found by settling the call. -/
theorem exists_resolution_of_lookup {s : WalkState} {call : NodeId} {ctx : ChainContext}
    (h : s.memo.lookup call = some ctx) : ∃ r ∈ s.resolutions, r.call = call ∧ r.context = ctx := by
  obtain ⟨before, after, hmemo, -⟩ := List.lookup_eq_some_iff.1 h
  have hmem : (call, ctx) ∈ s.memo := by simp [hmemo]
  obtain ⟨r, hr, hpair⟩ := List.mem_map.1 hmem
  cases hpair
  exact ⟨r, hr, rfl, rfl⟩

/-! ### Resolved calls -/

/-- The context of the receiver of a call. -/
def receiverContext (p : Program) (roles : RoleTable) (env : Environment) (call recv : NodeId) :
    Walk ChainContext :=
  if p.isCall recv then
    if recv < call then resolveCall p roles env recv else pure .untracked
  else pure (env.contextOf p recv)

/-- What is no method call is untracked, and nothing is done. -/
theorem resolveCall_other {call : NodeId} (env : Environment) (h : p.methodCall? call = none) (s : WalkState) :
    resolveCall p roles env call s = .ok .untracked s := by
  rw [resolveCall]
  simp only [h]
  rfl

/-- A call that is known is not settled again. -/
theorem resolveCall_known {call recv sel : NodeId} {args : List NodeId} (env : Environment)
    (h : p.methodCall? call = some (recv, sel, args)) {s : WalkState} {ctx : ChainContext}
    (hknown : s.memo.lookup call = some ctx) : resolveCall p roles env call s = .ok ctx s := by
  rw [resolveCall]
  simp only [h]
  rw [get_bind]
  simp only [hknown]
  rfl

/-- A call that is not known is settled behind its receiver. -/
theorem resolveCall_new {call recv sel : NodeId} {args : List NodeId} (env : Environment)
    (h : p.methodCall? call = some (recv, sel, args)) {s : WalkState} (hnew : s.memo.lookup call = none) :
    resolveCall p roles env call s =
      (receiverContext p roles env call recv >>= settle p roles call sel args) s := by
  rw [resolveCall]
  simp only [h]
  rw [get_bind]
  simp only [hnew]
  unfold receiverContext
  split
  · split <;> rfl
  · rfl

/-- The contexts of later calls stay unknown while a call is resolved. -/
theorem lookup_of_resolveCall {env : Environment} {call : NodeId} {ctx : ChainContext} {s t : WalkState}
    (h : resolveCall p roles env call s = .ok ctx t) {later : NodeId} (hlt : call < later) :
    t.memo.lookup later = s.memo.lookup later := by
  induction call using Nat.strongRecOn generalizing ctx s t with
  | ind call ih =>
    cases hcall : p.methodCall? call with
    | none =>
      rw [resolveCall_other env hcall] at h
      cases h
      rfl
    | some parts =>
      obtain ⟨recv, sel, args⟩ := parts
      cases hmemo : s.memo.lookup call with
      | some known =>
        rw [resolveCall_known env hcall hmemo] at h
        cases h
        rfl
      | none =>
        rw [resolveCall_new env hcall hmemo] at h
        obtain ⟨receiver, u, hreceiver, hsettle⟩ := bind_eq_ok.1 h
        have hne : (later == call) = false := beq_eq_false_iff_ne.2 (Nat.ne_of_gt hlt)
        rw [memo_of_settle hsettle, List.lookup_cons, hne]
        unfold receiverContext at hreceiver
        split at hreceiver
        · split at hreceiver
          · rename_i hrecv
            exact ih recv hrecv hreceiver (Nat.lt_trans hrecv hlt)
          · cases hreceiver
            rfl
        · cases hreceiver
          rfl

/-! ### Invariants -/

/-- `I` is an invariant of the walk over the nodes in `C`, where the contexts of chains satisfy `Q` and failures satisfy
`E`: it is enough that settling a new call keeps it. -/
structure Invariant (p : Program) (roles : RoleTable) (C : NodeId → Prop) (I : WalkState → Prop)
    (E : CheckError → WalkState → Prop) (Q : ChainContext → Prop) : Prop where
  child : ∀ {n c}, C n → c ∈ p.children n → C c
  untracked : Q .untracked
  known : ∀ {s call ctx}, I s → s.memo.lookup call = some ctx → Q ctx
  settle : ∀ {call recv sel args receiver}, C call → p.methodCall? call = some (recv, sel, args) → Q receiver →
    Ensures (fun s => I s ∧ s.memo.lookup call = none) (settle p roles call sel args receiver)
      (fun ctx t => I t ∧ Q ctx) E

namespace Invariant

variable {C : NodeId → Prop} {I : WalkState → Prop} {E : CheckError → WalkState → Prop} {Q : ChainContext → Prop}
  {env : Environment}

/-- The receiver of a call is among the nodes that the invariant is about. -/
theorem receiver (h : Invariant p roles C I E Q) {call recv sel : NodeId} {args : List NodeId} (hC : C call)
    (hcall : p.methodCall? call = some (recv, sel, args)) : C recv := by
  obtain ⟨callee, spread, hnode, hcallee⟩ := Program.methodCall?_eq_some.1 hcall
  have hchild : C callee := h.child hC (by simp [Program.children_of_node? hnode, Node.children])
  exact h.child hchild (by simp [Program.children_of_node? hcallee, Node.children])

/-- Resolving a call keeps the invariant: receivers stand before calls, so the induction is on the number of the call.
-/
theorem resolveCall (h : Invariant p roles C I E Q) (henv : env.All Q) {call : NodeId} (hC : C call) :
    Ensures I (Walk.resolveCall p roles env call) (fun ctx t => I t ∧ Q ctx) E := by
  induction call using Nat.strongRecOn with
  | ind call ih =>
    intro s hs
    cases hcall : p.methodCall? call with
    | none =>
      rw [resolveCall_other env hcall]
      exact ⟨hs, h.untracked⟩
    | some parts =>
      obtain ⟨recv, sel, args⟩ := parts
      cases hmemo : s.memo.lookup call with
      | some ctx =>
        rw [resolveCall_known env hcall hmemo]
        exact ⟨hs, h.known hs hmemo⟩
      | none =>
        rw [resolveCall_new env hcall hmemo]
        -- the receiver is resolved first, and leaves the call itself unknown
        have hreceiver : Ensures (fun u => u = s) (receiverContext p roles env call recv)
            (fun ctx t => (I t ∧ t.memo.lookup call = none) ∧ Q ctx) E := by
          unfold receiverContext
          split
          · split
            · rename_i hrecv
              have hresolve := ih recv hrecv (h.receiver hC hcall)
              refine Ensures.intro ?_ ?_
              · rintro u ctx t rfl hrun
                obtain ⟨ht, hctx⟩ := hresolve.of_ok hs hrun
                exact ⟨⟨ht, (lookup_of_resolveCall hrun hrecv).trans hmemo⟩, hctx⟩
              · rintro u e t rfl hrun
                exact hresolve.of_error hs hrun
            · refine Ensures.pure ?_
              rintro u rfl
              exact ⟨⟨hs, hmemo⟩, h.untracked⟩
          · refine Ensures.pure ?_
            rintro u rfl
            exact ⟨⟨hs, hmemo⟩, henv.contextOf h.untracked p recv⟩
        exact Ensures.bind hreceiver (fun receiver => Ensures.assume (h.settle hC hcall)) s rfl

/-- Resolving a value that is bound keeps the invariant. -/
theorem valueContext (h : Invariant p roles C I E Q) (henv : env.All Q) {value : NodeId} (hC : C value) :
    Ensures I (Walk.valueContext p roles env value) (fun ctx t => I t ∧ Q ctx) E := by
  unfold Walk.valueContext
  split
  · split
    · exact h.resolveCall henv hC
    · exact Ensures.pure fun _ hs => ⟨hs, h.untracked⟩
  · exact Ensures.pure fun _ hs => ⟨hs, henv.contextOf h.untracked p value⟩
  · exact Ensures.pure fun _ hs => ⟨hs, henv.contextOf h.untracked p value⟩
  · exact Ensures.pure fun _ hs => ⟨hs, h.untracked⟩

theorem bindTarget (h : Invariant p roles C I E Q) (henv : env.All Q) (target : NodeId) {value : NodeId}
    (hC : C value) :
    Ensures I (Walk.bindTarget p roles env target value) (fun env' t => I t ∧ env'.All Q) E := by
  unfold Walk.bindTarget
  split
  · exact Ensures.pure fun _ hs => ⟨hs, henv⟩
  · split
    · exact Ensures.pure fun _ hs => ⟨hs, henv⟩
    · rename_i obj _
      refine Ensures.bind (h.valueContext henv hC) fun ctx => Ensures.pure ?_
      rintro t ⟨ht, hctx⟩
      exact ⟨ht, henv.bind hctx obj⟩

/-- Binding pairs one after another keeps the invariant, in an environment that changes with each of them. -/
theorem bindPairs (h : Invariant p roles C I E Q) (henv : env.All Q) {pairs : List (NodeId × NodeId)}
    (hC : ∀ pair ∈ pairs, C pair.2) :
    Ensures I (pairs.foldlM (fun env pair => Walk.bindTarget p roles env pair.1 pair.2) env)
      (fun env' t => I t ∧ env'.All Q) E := by
  refine (Ensures.foldlM (J := fun env' t => I t ∧ Environment.All Q env') ?_ env).weaken (fun _ hs => ⟨hs, henv⟩)
    (fun _ _ hQ => hQ) fun _ _ hE => hE
  intro env' pair hpair
  exact Ensures.assume fun henv' => h.bindTarget henv' pair.1 (hC pair hpair)

theorem bindTargets (h : Invariant p roles C I E Q) (henv : env.All Q) (targets : List NodeId)
    {values : List NodeId} (hC : ∀ value ∈ values, C value) :
    Ensures I (Walk.bindTargets p roles env targets values) (fun env' t => I t ∧ env'.All Q)
      E :=
  h.bindPairs henv fun _ hpair => hC _ (List.of_mem_zip hpair).2

theorem enter (h : Invariant p roles C I E Q) (henv : env.All Q) {n : NodeId} (hC : C n) :
    Ensures I (Walk.enter p roles n env) (fun env' t => I t ∧ env'.All Q) E := by
  unfold Walk.enter
  split
  · exact Ensures.pure fun _ hs => ⟨hs, henv.child⟩
  · rename_i lhs rhs define hnode
    refine h.bindTargets henv lhs fun value hvalue => h.child hC ?_
    simp [Program.children_of_node? hnode, Node.children, hvalue]
  · rename_i names values hnode
    refine h.bindTargets henv names fun value hvalue => h.child hC ?_
    simp [Program.children_of_node? hnode, Node.children, hvalue]
  · refine Ensures.bind (h.resolveCall henv hC) fun _ => Ensures.pure ?_
    rintro t ⟨ht, -⟩
    exact ⟨ht, henv⟩
  · exact Ensures.pure fun _ hs => ⟨hs, henv⟩

/-- A visit keeps the invariant, by induction on the number of the node. -/
theorem visit (h : Invariant p roles C I E Q) (henv : env.All Q) {n : NodeId} (hC : C n) :
    Ensures I (Walk.visit p roles n env) (fun env' t => I t ∧ env'.All Q) E := by
  induction n using Nat.strongRecOn generalizing env with
  | ind n ih =>
    rw [Walk.visit]
    refine Ensures.bind (h.enter henv hC) fun inner => ?_
    have hchildren : Ensures (fun t => I t ∧ inner.All Q)
        ((p.subnodes n).foldlM (fun env ⟨c, _⟩ => Walk.visit p roles c env) inner)
        (fun env' t => I t ∧ env'.All Q) E := by
      refine Ensures.foldlM (J := fun env' t => I t ∧ env'.All Q) ?_ inner
      rintro env' ⟨c, hc⟩ hmem
      exact Ensures.assume fun henv' => ih c hc henv' (h.child hC (Program.mem_children_of_mem_subnodes hmem))
    refine Ensures.bind hchildren fun after => Ensures.pure ?_
    rintro t ⟨ht, hafter⟩
    refine ⟨ht, ?_⟩
    split
    · exact henv
    · exact hafter

theorem visits (h : Invariant p roles C I E Q) (henv : env.All Q) {ns : List NodeId} (hC : ∀ n ∈ ns, C n) :
    Ensures I (ns.foldlM (fun env n => Walk.visit p roles n env) env) (fun env' t => I t ∧ env'.All Q)
      E := by
  refine (Ensures.foldlM (J := fun env t => I t ∧ Environment.All Q env) ?_ env).weaken
    (fun _ hs => ⟨hs, henv⟩) (fun _ _ hQ => hQ) fun _ _ hE => hE
  intro env n hn
  exact Ensures.assume fun henv => h.visit henv (hC n hn)

/-- A walk keeps the invariant, in each declaration of the program. -/
theorem program (h : Invariant p roles C I E Q) (hC : ∀ d ∈ p.decls, C d) :
    Ensures I (Walk.program p roles) (fun env t => I t ∧ Environment.All Q env) E :=
  h.visits Environment.all_empty hC

end Invariant

end Walk

/-! ### A small walk -/

/-- Roles for `Program.sample`: `From` opens a chain, `In` descends, and `Pick` preserves. -/
def RoleTable.sample : RoleTable where
  roles := [(0, .entry), (1, .descend), (2, .preserve)]
  builder := 3
  fieldSelection := 2
  fieldOffset := 4
  tag := ⟨"db", "name"⟩

/-- What a walk finds in `Program.sample`: an address has no zip code. -/
def WalkState.sample : WalkState where
  resolutions := [⟨12, .tracked ⟨1, [0]⟩, .tracked ⟨1, [0]⟩⟩, ⟨8, .entry 0, .tracked ⟨1, [0]⟩⟩,
    ⟨4, .untracked, .entry 0⟩]
  diagnostics := {
    checked := [7, 11]
    found := [(11, ⟨.fieldNotFound, ⟨0, 1, 32⟩, some ⟨0, 2, 6⟩⟩)] }

theorem Walk.program_sample : Walk.program .sample .sample {} = .ok {} .sample := by
  decide +kernel

end FluentChain
