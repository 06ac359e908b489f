import FluentChain.Proofs.Walk.Assignment
import FluentChain.Proofs.Walk.Exact

/-!
# Calls in assigned values

Visiting a node leaves every variable alone that is not assigned in it, outside all blocks (`returns_visit`).  So a
call in an assigned value is settled with what its variable was bound to before the assignment, if the variable is
not assigned here; and also if the call begins the chain that the value is, for that chain is resolved before its
target is bound.  Any other call is settled after the targets are bound (`receiver_of_assigned`), and so the chain
in `x = keep(x.Pick("Nope"))` is not checked (`not_read_before_bound`).
-/

namespace FluentChain

/-- The targets and the values of an assignment or a declaration. -/
def Program.assignment? (p : Program) (n : NodeId) : Option (List NodeId × List NodeId) :=
  match p.node? n with
  | some (.assign lhs rhs _) => some (lhs, rhs)
  | some (.valueDecl names values) => some (names, values)
  | _ => none

namespace Walk

/-- Visiting the node binds the variable: the node is an assignment to it, or it has one below it outside all
blocks. -/
inductive Assigns (p : Program) (roles : RoleTable) (obj : ObjId) : NodeId → Prop
  | here {n : NodeId} {targets values : List NodeId} {pair : NodeId × NodeId}
    (hn : p.assignment? n = some (targets, values)) (hpair : pair ∈ targets.zip values)
    (hobj : pairVariable? p roles pair = some obj) : Assigns p roles obj n
  | child {n c : NodeId} (hn : isBlock p n = false) (hc : c ∈ p.children n) (h : Assigns p roles obj c) :
    Assigns p roles obj n

variable {p : Program} {roles : RoleTable} {env env' : Environment} {n : NodeId} {obj : ObjId}

section

variable {targets values : List NodeId} (hn : p.assignment? n = some (targets, values))

include hn

theorem node?_of_assignment :
    (∃ define, p.node? n = some (.assign targets values define)) ∨ p.node? n = some (.valueDecl targets values) := by
  unfold Program.assignment? at hn
  split at hn
  · cases hn
    exact Or.inl ⟨_, ‹_›⟩
  · cases hn
    exact Or.inr ‹_›
  · cases hn

theorem enter_of_assignment (env : Environment) : enter p roles n env = bindTargets p roles env targets values := by
  unfold enter
  rcases node?_of_assignment hn with ⟨define, hnode⟩ | hnode
  · simp only [hnode]
  · simp only [hnode]

theorem children_of_assignment : p.children n = targets ++ values := by
  rcases node?_of_assignment hn with ⟨define, hnode⟩ | hnode
  · exact Program.children_of_node? hnode
  · exact Program.children_of_node? hnode

theorem isBlock_of_assignment : isBlock p n = false := by
  unfold isBlock
  rcases node?_of_assignment hn with ⟨define, hnode⟩ | hnode
  · rw [hnode]
  · rw [hnode]

end

/-! ### What a visit leaves alone -/

theorem returns_bindTarget {pair : NodeId × NodeId} (h : pairVariable? p roles pair ≠ some obj) (env : Environment) :
    Returns (bindTarget p roles env pair.1 pair.2) fun after => after.binding? obj = env.binding? obj := by
  cases hvariable : pairVariable? p roles pair with
  | none =>
    rw [bindTarget_of_none env hvariable]
    exact Ensures.pure fun _ _ => rfl
  | some other =>
    rw [bindTarget_of_some env hvariable]
    have hne : obj ≠ other := by
      rintro rfl
      exact h hvariable
    exact returns_bind fun ctx => Ensures.pure fun _ _ => Environment.binding?_bind_of_ne env hne ctx

theorem returns_bindPairs {pairs : List (NodeId × NodeId)} (h : ∀ pair ∈ pairs, pairVariable? p roles pair ≠ some obj)
    (env : Environment) :
    Returns (pairs.foldlM (fun env pair => bindTarget p roles env pair.1 pair.2) env)
      fun after => after.binding? obj = env.binding? obj := by
  refine (Ensures.foldlM (J := fun after _ => Environment.binding? after obj = env.binding? obj) ?_ env).weaken
    (fun _ _ => rfl) (fun _ _ hafter => hafter) fun _ _ h => h
  intro before pair hpair
  refine Ensures.given fun hbefore => ?_
  exact (returns_bindTarget (h pair hpair) before).weaken (fun _ h => h) (fun _ _ hafter => hafter.trans hbefore)
    fun _ _ h => h

theorem returns_enter (h : ¬ Assigns p roles obj n) (env : Environment) :
    Returns (enter p roles n env) fun inner => inner.binding? obj = env.binding? obj := by
  cases hassignment : p.assignment? n with
  | some parts =>
    rw [enter_of_assignment hassignment]
    exact returns_bindPairs (fun pair hpair hobj => h (.here hassignment hpair hobj)) env
  | none =>
    unfold Program.assignment? at hassignment
    unfold enter
    split
    · exact Ensures.pure fun _ _ => Environment.binding?_child env obj
    · simp [*] at hassignment
    · simp [*] at hassignment
    · exact returns_bind fun _ => Ensures.pure fun _ _ => rfl
    · exact Ensures.pure fun _ _ => rfl

/-- A visit leaves every variable alone that is not assigned in the node, outside all blocks. -/
theorem returns_visit (h : ¬ Assigns p roles obj n) (env : Environment) :
    Returns (visit p roles n env) fun after => after.binding? obj = env.binding? obj := by
  induction n using Nat.strongRecOn generalizing env with
  | ind n ih =>
    rw [visit]
    refine Ensures.bind (returns_enter h env) fun inner => Ensures.given fun hinner => ?_
    cases hblock : isBlock p n with
    | true => exact returns_bind fun _ => Ensures.pure fun _ _ => rfl
    | false =>
      refine Ensures.bind (R := fun after _ => after.binding? obj = env.binding? obj) ?_
        fun after => Ensures.pure fun _ hafter => hafter
      refine (Ensures.foldlM (J := fun after _ => Environment.binding? after obj = env.binding? obj) ?_ inner).weaken
        (fun _ _ => hinner) (fun _ _ hafter => hafter) fun _ _ h => h
      rintro before ⟨c, hc⟩ hmem
      refine Ensures.given fun hbefore => ?_
      have hchild : ¬ Assigns p roles obj c :=
        fun hassigns => h (.child hblock (Program.mem_children_of_mem_subnodes hmem) hassigns)
      exact (ih c hc hchild before).weaken (fun _ h => h) (fun _ _ hafter => hafter.trans hbefore) fun _ _ h => h

/-- The context of an expression is that of the variable it names. -/
theorem returns_contextOf {m : Walk Environment} {recv : NodeId}
    (h : ∀ obj, p.identObject? recv = some obj → Returns m fun after => after.binding? obj = env.binding? obj) :
    Returns m fun after => after.contextOf p recv = env.contextOf p recv := by
  refine Ensures.intro (fun s after t _ hrun => contextOf_congr fun obj hobj => ?_) fun _ _ _ _ _ => trivial
  unfold Environment.lookup?
  rw [(h obj hobj).of_ok trivial hrun]

/-! ### Calls settled with a context -/

/-- Wherever the call has been settled, its receiver had the context `ctx`. -/
def SettledFrom (call : NodeId) (ctx : ChainContext) (s : WalkState) : Prop :=
  ∀ r ∈ s.resolutions, r.call = call → r.receiver = ctx

variable {c recv sel : NodeId} {args : List NodeId} {ctx : ChainContext}

theorem settledFrom_of_lookup_eq_none {s : WalkState} (h : s.memo.lookup c = none) : SettledFrom c ctx s :=
  fun r hr hcall => absurd hcall (not_mem_of_lookup_eq_none h r hr)

theorem settledFrom_settle {call sel : NodeId} {args : List NodeId} {receiver : ChainContext}
    (h : call = c → receiver = ctx) :
    Ensures (SettledFrom c ctx) (settle p roles call sel args receiver) (fun _ => SettledFrom c ctx)
      fun _ _ => True := by
  refine Ensures.intro (fun s after t hs hrun r hr hcall => ?_) fun _ _ _ _ _ => trivial
  rw [resolutions_of_settle hrun] at hr
  rcases List.mem_cons.1 hr with rfl | hr
  · exact h hcall
  · exact hs r hr hcall

/-- Visits to nodes that the call is not in do not settle it. -/
theorem settledFrom_visit_of_not_within (h : ¬ p.Within n c) (env : Environment) :
    Ensures (SettledFrom c ctx) (visit p roles n env) (fun _ => SettledFrom c ctx) fun _ _ => True := by
  have hinvariant : Invariant p roles (p.Within n) (SettledFrom c ctx) (fun _ _ => True) fun _ => True := by
    refine ⟨fun hm hchild => Relation.ReflTransGen.tail hm hchild, trivial, fun _ _ => trivial, ?_⟩
    intro call recv sel args receiver hwithin _ _
    have hne : call = c → receiver = ctx := by
      rintro rfl
      exact absurd hwithin h
    exact (settledFrom_settle hne).weaken (fun _ hs => hs.1) (fun _ _ ht => ⟨ht, trivial⟩) fun _ _ h => h
  exact (hinvariant.visit (fun _ _ _ => trivial) (.refl n)).weaken (fun _ hs => hs) (fun _ _ ht => ht.1)
    fun _ _ h => h

/-- A call that has been settled stays as it was settled. -/
theorem invariant_settledFrom :
    Invariant p roles (fun _ => True) (fun s => (s.memo.lookup c).isSome ∧ SettledFrom c ctx s) (fun _ _ => True)
      fun _ => True where
  child _ _ := trivial
  untracked := trivial
  known _ _ := trivial
  settle := by
    intro call recv sel args receiver _ _ _
    refine Ensures.intro ?_ fun _ _ _ _ _ => trivial
    rintro s ctx' t ⟨⟨hknown, hs⟩, hnew⟩ hrun
    have hne : c ≠ call := by
      rintro rfl
      rw [hnew] at hknown
      cases hknown
    refine ⟨⟨?_, (settledFrom_settle fun heq => absurd heq.symm hne).of_ok hs hrun⟩, trivial⟩
    rw [memo_of_settle hrun, List.lookup_cons, beq_eq_false_iff_ne.2 hne]
    exact hknown

section

variable (hcall : p.methodCall? c = some (recv, sel, args)) (hrecv : p.isCall recv = false)

include hcall hrecv

theorem settledFrom_resolveCall (henv : env.contextOf p recv = ctx) (call : NodeId) :
    Ensures (SettledFrom c ctx) (resolveCall p roles env call) (fun _ => SettledFrom c ctx) fun _ _ => True := by
  induction call using Nat.strongRecOn with
  | ind call ih =>
    intro s hs
    cases hparts : p.methodCall? call with
    | none =>
      rw [resolveCall_other env hparts]
      exact hs
    | some parts =>
      obtain ⟨recv', sel', args'⟩ := parts
      cases hmemo : s.memo.lookup call with
      | some known =>
        rw [resolveCall_known env hparts hmemo]
        exact hs
      | none =>
        rw [resolveCall_new env hparts hmemo]
        have hsame : call = c → recv' = recv := by
          rintro rfl
          cases hcall.symm.trans hparts
          rfl
        have hreceiver : Ensures (SettledFrom c ctx) (receiverContext p roles env call recv')
            (fun receiver t => SettledFrom c ctx t ∧ (call = c → receiver = ctx)) fun _ _ => True := by
          unfold receiverContext
          split
          · rename_i hiscall
            have hne : call ≠ c := by
              intro heq
              rw [hsame heq, hrecv] at hiscall
              cases hiscall
            split
            · rename_i hlt
              exact (ih recv' hlt).weaken (fun _ h => h) (fun _ _ ht => ⟨ht, fun heq => absurd heq hne⟩) fun _ _ h => h
            · exact Ensures.pure fun _ ht => ⟨ht, fun heq => absurd heq hne⟩
          · refine Ensures.pure fun _ ht => ⟨ht, fun heq => ?_⟩
            rw [hsame heq, henv]
        exact Ensures.bind hreceiver (fun _ => Ensures.assume settledFrom_settle) s hs

theorem settledFrom_bindTarget (henv : env.contextOf p recv = ctx) (target value : NodeId) :
    Ensures (SettledFrom c ctx) (bindTarget p roles env target value) (fun _ => SettledFrom c ctx)
      fun _ _ => True := by
  have hvalue : Ensures (SettledFrom c ctx) (valueContext p roles env value) (fun _ => SettledFrom c ctx)
      fun _ _ => True := by
    unfold valueContext
    split
    · split
      · exact settledFrom_resolveCall hcall hrecv henv value
      · exact Ensures.pure fun _ hs => hs
    · exact Ensures.pure fun _ hs => hs
    · exact Ensures.pure fun _ hs => hs
    · exact Ensures.pure fun _ hs => hs
  unfold bindTarget
  split
  · exact Ensures.pure fun _ hs => hs
  · split
    · exact Ensures.pure fun _ hs => hs
    · exact Ensures.bind hvalue fun _ => Ensures.pure fun _ hs => hs

/-- While pairs are bound that do not bind the variable, the call is settled with the context of the variable. -/
theorem settledFrom_bindPairs (henv : env.contextOf p recv = ctx) {pairs : List (NodeId × NodeId)}
    (h : ∀ pair ∈ pairs, ∀ obj, p.identObject? recv = some obj → pairVariable? p roles pair ≠ some obj) :
    Ensures (SettledFrom c ctx) (pairs.foldlM (fun env pair => bindTarget p roles env pair.1 pair.2) env)
      (fun after t => after.contextOf p recv = ctx ∧ SettledFrom c ctx t) fun _ _ => True := by
  refine (Ensures.foldlM (J := fun after t => Environment.contextOf after p recv = ctx ∧ SettledFrom c ctx t) ?_
    env).weaken (fun _ hs => ⟨henv, hs⟩) (fun _ _ ht => ht) fun _ _ h => h
  rintro before pair hpair s ⟨hbefore, hs⟩
  have hkeeps : Returns (bindTarget p roles before pair.1 pair.2)
      fun after => after.contextOf p recv = before.contextOf p recv :=
    returns_contextOf fun obj hobj => returns_bindTarget (h pair hpair obj hobj) before
  exact ((settledFrom_bindTarget hcall hrecv hbefore pair.1 pair.2).and hkeeps).weaken (fun _ h => h)
    (fun _ _ ht => ⟨ht.2.trans hbefore, ht.1⟩) (fun _ _ h => h) s hs

theorem settledFrom_enter (henv : env.contextOf p recv = ctx) (n : NodeId)
    (h : ∀ obj, p.identObject? recv = some obj → ¬ Assigns p roles obj n) :
    Ensures (SettledFrom c ctx) (enter p roles n env)
      (fun inner t => inner.contextOf p recv = ctx ∧ SettledFrom c ctx t) fun _ _ => True := by
  cases hassignment : p.assignment? n with
  | some parts =>
    rw [enter_of_assignment hassignment]
    refine settledFrom_bindPairs hcall hrecv henv fun pair hpair obj hobj hvariable => ?_
    exact h obj hobj (.here hassignment hpair hvariable)
  | none =>
    unfold Program.assignment? at hassignment
    unfold enter
    split
    · exact Ensures.pure fun _ hs => ⟨henv, hs⟩
    · simp [*] at hassignment
    · simp [*] at hassignment
    · refine Ensures.bind (settledFrom_resolveCall hcall hrecv henv n) fun _ => Ensures.pure fun _ hs => ⟨henv, hs⟩
    · exact Ensures.pure fun _ hs => ⟨henv, hs⟩

/-- In a node that does not assign the variable, the call is settled with the context of the variable, unless it
stands in a block. -/
theorem settledFrom_visit (hp : p.Ordered) (henv : env.contextOf p recv = ctx)
    (hfree : ∀ obj, p.identObject? recv = some obj → ¬ Assigns p roles obj n)
    (hblocks : ∀ b, p.Within n b → isBlock p b = true → ¬ p.Within b c) :
    Ensures (SettledFrom c ctx) (visit p roles n env)
      (fun after t => after.contextOf p recv = ctx ∧ SettledFrom c ctx t) fun _ _ => True := by
  induction n using Nat.strongRecOn generalizing env with
  | ind n ih =>
    have hkeeps : Returns (visit p roles n env) fun after => after.contextOf p recv = env.contextOf p recv :=
      returns_contextOf fun obj hobj => returns_visit (hfree obj hobj) env
    refine Ensures.weaken (Ensures.and ?_ hkeeps) (fun _ hs => hs)
      (fun _ _ ht => ⟨ht.2.trans henv, ht.1⟩) fun _ _ h => h
    cases hblock : isBlock p n with
    | true => exact settledFrom_visit_of_not_within (hblocks n (.refl n) hblock) env
    | false =>
      rw [visit_eq hp]
      refine Ensures.bind (settledFrom_enter hcall hrecv henv n hfree) fun inner => ?_
      refine Ensures.bind (R := fun after t => Environment.contextOf after p recv = ctx ∧ SettledFrom c ctx t) ?_
        fun _ => Ensures.pure fun _ ht => ht.2
      refine Ensures.foldlM
        (J := fun after t => Environment.contextOf after p recv = ctx ∧ SettledFrom c ctx t) ?_ inner
      rintro before child hchild s ⟨hbefore, hs⟩
      exact ih child (hp n child hchild) hbefore
        (fun obj hobj hassigns => hfree obj hobj (.child hblock hchild hassigns))
        (fun b hb => hblocks b (.child hchild hb)) s hs

/-! ### Chains resolved while their targets are bound -/

end

theorem within_recv_of_methodCall? {call recv sel : NodeId} {args : List NodeId}
    (h : p.methodCall? call = some (recv, sel, args)) : p.Within call recv := by
  obtain ⟨callee, spread, hcall, hcallee⟩ := Program.methodCall?_eq_some.1 h
  have hchild : callee ∈ p.children call := by simp [Program.children_of_node? hcall, Node.children]
  have hrecv : recv ∈ p.children callee := by simp [Program.children_of_node? hcallee, Node.children]
  exact .child hchild (.child hrecv (.refl recv))

theorem within_of_chain {root last : NodeId} {links : List Link} (h : p.Chain root links last) :
    ∀ link ∈ links, p.Within last link.call := by
  induction h with
  | root => simp
  | link _ hcall ih =>
    intro link hlink
    rcases List.mem_append.1 hlink with hlink | hlink
    · exact (within_recv_of_methodCall? hcall).trans (ih link hlink)
    · rw [List.mem_singleton.1 hlink]
      exact .refl _

theorem isCall_of_chain {root last : NodeId} {links : List Link} (h : p.Chain root links last) (hlinks : links ≠ []) :
    p.isCall last = true := by
  cases h with
  | root => exact absurd rfl hlinks
  | link _ hcall => exact isCall_of_methodCall? hcall

/-- All calls of a chain are known once its last call is resolved. -/
theorem known_of_chain (hp : p.Ordered) {root last : NodeId} {links : List Link} (hchain : p.Chain root links last)
    (hroot : p.methodCall? root = none) {s t : WalkState} (hnew : ∀ link ∈ links, s.memo.lookup link.call = none)
    (hrun : resolveCall p roles env last s = .ok ctx t) : ∀ link ∈ links, (t.memo.lookup link.call).isSome := by
  intro link hlink
  rw [resolveCall_eq_foldlM hp hchain hroot (List.ne_nil_of_mem hlink) env hnew] at hrun
  obtain ⟨ctxs, hlength, -, hmemo, -⟩ := exists_contexts_of_foldlM hrun
  have hkeys : ((links.map (·.call)).zip ctxs).map (·.1) = links.map (·.call) :=
    List.map_fst_zip (by simp [hlength])
  have hkey : link.call ∈ ((links.map (·.call)).zip ctxs).map (·.1) := by
    rw [hkeys]
    exact List.mem_map_of_mem hlink
  obtain ⟨entry, hentry, heq⟩ := List.mem_map.1 hkey
  rw [hmemo]
  exact List.lookup_isSome_iff.2 ⟨entry, List.mem_append_left _ (List.mem_reverse.2 hentry), by simp [heq]⟩

/-- The call begins the chain that a value is, the chain is bound to a target, and no earlier pair binds the
variable that the chain is on. -/
def ReadBeforeBound (p : Program) (roles : RoleTable) (pairs : List (NodeId × NodeId)) (call root : NodeId) : Prop :=
  ∃ before pair after link links, pairs = before ++ pair :: after ∧ (pairVariable? p roles pair).isSome ∧
    p.type? pair.2 = some roles.builder ∧ p.Chain root (link :: links) pair.2 ∧ link.call = call ∧
    ∀ earlier ∈ before, ∀ obj, p.identObject? root = some obj → pairVariable? p roles earlier ≠ some obj

/-- A bound value of the builder type that is a call is resolved while it is bound. -/
theorem exists_resolveCall_of_bindTarget {pair : NodeId × NodeId} (hvariable : (pairVariable? p roles pair).isSome)
    (htype : p.type? pair.2 = some roles.builder) (hcall : p.isCall pair.2 = true) {after : Environment}
    {s t : WalkState} (hrun : bindTarget p roles env pair.1 pair.2 s = .ok after t) :
    ∃ ctx, resolveCall p roles env pair.2 s = .ok ctx t := by
  obtain ⟨obj, hobj⟩ := Option.isSome_iff_exists.1 hvariable
  rw [bindTarget_of_some env hobj] at hrun
  obtain ⟨ctx, u, hvalue, hreturn⟩ := bind_eq_ok.1 hrun
  cases hreturn
  unfold Program.isCall at hcall
  unfold valueContext at hvalue
  split at hcall
  · rename_i hnode
    simp only [hnode, htype, ↓reduceIte] at hvalue
    exact ⟨ctx, hvalue⟩
  · cases hcall

/-- The values of an assignment lie apart, and so do those that are paired with a target. -/
theorem pairwise_apart_of_assignment (hp : p.IsForest) {targets values : List NodeId}
    (hn : p.assignment? n = some (targets, values)) :
    (targets.zip values).Pairwise fun a b => p.Apart a.2 b.2 := by
  have hvalues : values.Pairwise p.Apart := by
    refine hp.pairwise_apart (n := n) ?_
    rw [children_of_assignment hn]
    exact List.sublist_append_right targets values
  rw [List.pairwise_iff_getElem]
  intro i j hi hj hij
  rw [List.getElem_zip, List.getElem_zip]
  exact List.pairwise_iff_getElem.1 hvalues i j _ _ hij

/-- What is known of a value stays unknown while pairs are bound whose values are apart from it. -/
theorem lookup_of_bindPairs (hp : p.IsForest) {value : NodeId} {pairs : List (NodeId × NodeId)}
    (hapart : ∀ pair ∈ pairs, p.Apart pair.2 value) {s t : WalkState}
    (hnew : ∀ m, p.Within value m → s.memo.lookup m = none)
    (hrun : pairs.foldlM (fun env pair => bindTarget p roles env pair.1 pair.2) env s = .ok env' t) :
    ∀ m, p.Within value m → t.memo.lookup m = none := by
  have hinvariant : Invariant p roles (fun m => ∃ pair ∈ pairs, p.Within pair.2 m)
      (fun s => ∀ m, p.Within value m → s.memo.lookup m = none) (fun _ _ => True) fun _ => True := by
    refine ⟨?_, trivial, fun _ _ => trivial, ?_⟩
    · rintro n c ⟨pair, hpair, hn⟩ hc
      exact ⟨pair, hpair, Relation.ReflTransGen.tail hn hc⟩
    · rintro call recv sel args receiver ⟨pair, hpair, hwithin⟩ _ _
      refine Ensures.intro ?_ fun _ _ _ _ _ => trivial
      rintro s ctx t ⟨hs, -⟩ hrun
      refine ⟨fun m hm => ?_, trivial⟩
      have hne : m ≠ call := by
        rintro rfl
        exact hp.not_within_of_apart (hapart pair hpair) hwithin hm
      rw [memo_of_settle hrun, List.lookup_cons, beq_eq_false_iff_ne.2 hne]
      exact hs m hm
  exact ((hinvariant.bindPairs (fun _ _ _ => trivial) fun pair hpair => ⟨pair, hpair, .refl _⟩).of_ok hnew hrun).1

/-- A chain that is read before its variable is bound is settled with what the variable was bound to before. -/
theorem settledFrom_of_readBeforeBound (hp : p.IsForest) {targets values : List NodeId}
    (hn : p.assignment? n = some (targets, values)) (hcall : p.methodCall? c = some (recv, sel, args))
    (hrecv : p.isCall recv = false) (hread : ReadBeforeBound p roles (targets.zip values) c recv) {s t : WalkState}
    (hnew : ∀ m, p.Within n m → s.memo.lookup m = none) (hrun : bindTargets p roles env targets values s = .ok env' t) :
    (t.memo.lookup c).isSome ∧ SettledFrom c (env.contextOf p recv) t := by
  obtain ⟨before, pair, after, link, links, hpairs, hvariable, htype, hchain, rfl, hearlier⟩ := hread
  have hvalue : pair.2 ∈ p.children n := by
    have hpair : pair ∈ targets.zip values := by simp [hpairs]
    rw [children_of_assignment hn]
    exact List.mem_append_right _ (List.of_mem_zip hpair).2
  have hapart : ∀ other ∈ before, p.Apart other.2 pair.2 := by
    have hpairwise := pairwise_apart_of_assignment hp hn
    rw [hpairs, List.pairwise_append] at hpairwise
    exact fun other hother => hpairwise.2.2 other hother pair List.mem_cons_self
  have hwithin : ∀ m, p.Within pair.2 m → p.Within n m := fun m hm => .child hvalue hm
  have hrun' : (before ++ pair :: after).foldlM (fun env pair => bindTarget p roles env pair.1 pair.2) env s =
      .ok env' t := by
    rw [← hpairs]
    exact hrun
  rw [List.foldlM_append] at hrun'
  obtain ⟨env₁, s₁, hbefore, hrest⟩ := bind_eq_ok.1 hrun'
  rw [List.foldlM_cons] at hrest
  obtain ⟨env₂, s₂, hpair, hafter⟩ := bind_eq_ok.1 hrest
  -- the pairs before leave the variable and the chain alone
  have hfirst : SettledFrom link.call (env.contextOf p recv) s :=
    settledFrom_of_lookup_eq_none (hnew _ (hwithin _ (within_of_chain hchain link (by simp))))
  obtain ⟨henv₁, hs₁⟩ := (settledFrom_bindPairs hcall hrecv rfl hearlier).of_ok hfirst hbefore
  have hunknown := lookup_of_bindPairs hp hapart (fun m hm => hnew m (hwithin m hm)) hbefore
  have hresolved := isCall_of_chain hchain (List.cons_ne_nil link links)
  obtain ⟨ctx, hresolve⟩ := exists_resolveCall_of_bindTarget hvariable htype hresolved hpair
  have hs₂ := (settledFrom_resolveCall hcall hrecv henv₁ pair.2).of_ok hs₁ hresolve
  have hknown := known_of_chain hp.ordered hchain (methodCall?_eq_none_of_isCall hrecv)
    (fun link hlink => hunknown _ (within_of_chain hchain link hlink)) hresolve link (by simp)
  exact ((invariant_settledFrom.bindPairs (fun _ _ _ => trivial) fun _ _ => trivial).of_ok ⟨hknown, hs₂⟩ hafter).1

/-- A visit to an assignment or a declaration in which no call is known yet.  A method call on a variable in one of
its values, outside all blocks, is settled in it.  Its receiver has the context that the variable has before the
assignment if the assignment does not bind the variable, and also if the call begins a chain that is read before
the variable is bound; and if it is still unknown after the targets are bound, it has the context that the variable
has then, unless an assignment further below binds it. -/
theorem receiver_of_assigned (hp : p.IsForest) {targets values : List NodeId}
    (hn : p.assignment? n = some (targets, values)) {s t : WalkState}
    (hnew : ∀ m, p.Within n m → s.memo.lookup m = none) (hrun : visit p roles n env s = .ok env' t) {value : NodeId}
    (hvalue : value ∈ values) (hc : p.Within value c)
    (hblocks : ∀ b, p.Within value b → isBlock p b = true → ¬ p.Within b c)
    (hcall : p.methodCall? c = some (recv, sel, args)) (hrecv : p.isCall recv = false) :
    (∃ r ∈ t.resolutions, r.call = c) ∧ ∀ r ∈ t.resolutions, r.call = c →
      ((∀ obj, p.identObject? recv = some obj → ¬ Assigns p roles obj n) → r.receiver = env.contextOf p recv) ∧
      (ReadBeforeBound p roles (targets.zip values) c recv → r.receiver = env.contextOf p recv) ∧
      ∀ inner u, enter p roles n env s = .ok inner u → u.memo.lookup c = none →
        (∀ child ∈ p.children n, ∀ obj, p.identObject? recv = some obj → ¬ Assigns p roles obj child) →
        r.receiver = inner.contextOf p recv := by
  have hchild : value ∈ p.children n := by
    rw [children_of_assignment hn]
    exact List.mem_append_right _ hvalue
  have hwithin : p.Within n c := .child hchild hc
  -- what is above the call is within the value or above it, and a block is never the assignment itself
  have hblocks' : ∀ b, p.Within n b → isBlock p b = true → ¬ p.Within b c := by
    intro b hb hblock hbc
    rcases hp.within_or_within hc hbc with hvb | hbv
    · exact hblocks b hvb hblock hbc
    · rcases hbv.eq_or_parent with rfl | ⟨m, hm, hvm⟩
      · exact hblocks value (.refl value) hblock hc
      · rw [hp.parent_unique hvm hchild] at hm
        have heq : b = n := Nat.le_antisymm (hp.ordered.le_of_within hb) (hp.ordered.le_of_within hm)
        rw [heq, isBlock_of_assignment hn] at hblock
        cases hblock
  have hknown := known_of_visit hp.ordered hrun c hwithin (by simp [hcall])
  obtain ⟨ctx, hctx⟩ := Option.isSome_iff_exists.1 hknown
  obtain ⟨r, hr, hrcall, -⟩ := exists_resolution_of_lookup hctx
  have hunsettled : ∀ ctx, SettledFrom c ctx s := fun ctx => settledFrom_of_lookup_eq_none (hnew c hwithin)
  have hsplit := hrun
  rw [visit_eq hp.ordered] at hsplit
  obtain ⟨inner, u, henter, hrest⟩ := bind_eq_ok.1 hsplit
  obtain ⟨after, v, hchildren, hreturn⟩ := bind_eq_ok.1 hrest
  cases hreturn
  refine ⟨⟨r, hr, hrcall⟩, fun r hr hrcall =>
    ⟨fun hfree => ?_, fun hread => ?_, fun inner' u' henter' hlookup hfree => ?_⟩⟩
  · exact ((settledFrom_visit hcall hrecv hp.ordered rfl hfree hblocks').of_ok (hunsettled _) hrun).2 r hr hrcall
  · rw [enter_of_assignment hn] at henter
    have hbound := settledFrom_of_readBeforeBound hp hn hcall hrecv hread hnew henter
    exact ((invariant_settledFrom.visits (fun _ _ _ => trivial) fun _ _ => trivial).of_ok hbound hchildren).1.2 r hr
      hrcall
  · cases henter.symm.trans henter'
    have hvisits : Ensures (SettledFrom c (inner.contextOf p recv))
        ((p.children n).foldlM (fun env c => visit p roles c env) inner)
        (fun _ => SettledFrom c (inner.contextOf p recv)) fun _ _ => True := by
      refine (Ensures.foldlM (J := fun after t => Environment.contextOf after p recv = inner.contextOf p recv ∧
        SettledFrom c (inner.contextOf p recv) t) ?_ inner).weaken (fun _ hs => ⟨rfl, hs⟩) (fun _ _ ht => ht.2)
        fun _ _ h => h
      rintro before m hm s ⟨hbefore, hs⟩
      exact settledFrom_visit hcall hrecv hp.ordered hbefore (hfree m hm) (fun b hb => hblocks' b (.child hm hb)) s hs
    exact hvisits.of_ok (settledFrom_of_lookup_eq_none hlookup) hchildren r hr hrcall

end Walk

/-! ### An assignment to its own variable -/

/-- The dump of `x := q.From(User{}); x = value`, where `keep` is a function from queries to queries. -/
def PackageDump.rebinding (value : NodeDump) : PackageDump where
  files := [{
    name := "a"
    decls := [
      .assign [.ident { name := "x", obj := "x", isDef := true, pos := "1:1" }]
        [.call (.selector (.ident { name := "q", obj := "q", pos := "1:6" })
          { name := "From", obj := "(Query).From", pos := "1:8" } none) [.composite "User" [] "1:13"] false none]
        true,
      .assign [.ident { name := "x", obj := "x", pos := "2:1" }] [value] false] }]
  types := PackageDump.sample.types
  objects := PackageDump.sample.objects ++
    [{ key := "x", kind := .var, type := "Query" },
     { key := "keep", kind := .func, params := some ["Query"], results := ["Query"] }]

def Program.rebinding (value : NodeDump) : Program := (Program.ofDumps [.rebinding value]).toOption.getD {}

/-- The call `x.Pick("Nope")`. -/
def NodeDump.pick : NodeDump :=
  .call (.selector (.ident { name := "x", obj := "x", pos := "2:10" })
    { name := "Pick", obj := "(Query).Pick", pos := "2:12" } none) [.literal .string "\"Nope\"" "2:17"] false none

/-- The call `keep(x.Pick("Nope"))`. -/
def NodeDump.keepPick : NodeDump :=
  .call (.ident { name := "keep", obj := "keep", pos := "2:5" }) [.pick] false none

/-- What a visit to `x = x.Pick("Nope")` finds: a user has no field of this name. -/
def WalkState.picked : WalkState where
  resolutions := [⟨12, .entry 0, .entry 0⟩]
  diagnostics := {
    checked := [11]
    found := [(11, ⟨.fieldNotFound, ⟨0, 2, 17⟩, none⟩)] }

namespace Walk

/-- There is no block to stand in. -/
theorem not_within_block {p : Program} (hp : p.Ordered) {value c : NodeId}
    (h : ∀ b < value + 1, isBlock p b = false) :
    ∀ b, p.Within value b → isBlock p b = true → ¬ p.Within b c := by
  intro b hb hblock
  rw [h b (Nat.lt_succ_of_le (hp.le_of_within hb))] at hblock
  cases hblock

/-- In `x = x.Pick("Nope")` the chain is read before `x` is bound. -/
theorem receiver_of_assigned_pick :
    visit (.rebinding .pick) .sample 13 (Environment.bind {} 5 (.entry 0)) {} =
      .ok ⟨[(5, .entry 0), (5, .entry 0)], []⟩ .picked ∧
    ∀ r ∈ WalkState.picked.resolutions, r.call = 12 →
      r.receiver = (Environment.bind {} 5 (.entry 0)).contextOf (.rebinding .pick) 8 := by
  obtain ⟨hdumps, hrun, hcall, hassigned, hbinds, htype, hblocks, hroot⟩ :
      Program.ofDumps [.rebinding .pick] = .ok (.rebinding .pick) ∧
      visit (.rebinding .pick) .sample 13 (Environment.bind {} 5 (.entry 0)) {} =
        .ok ⟨[(5, .entry 0), (5, .entry 0)], []⟩ .picked ∧
      (Program.rebinding .pick).methodCall? 12 = some (8, 9, [11]) ∧
      (Program.rebinding .pick).assignment? 13 = some ([7], [12]) ∧
      (pairVariable? (.rebinding .pick) .sample (7, 12)).isSome ∧
      (Program.rebinding .pick).type? 12 = some RoleTable.sample.builder ∧
      (∀ b < 13, isBlock (.rebinding .pick) b = false) ∧ (Program.rebinding .pick).isCall 8 = false := by
    decide +kernel
  have hp := Program.isForest_of_ofDumps hdumps
  have hread : ReadBeforeBound (.rebinding .pick) .sample [(7, 12)] 12 8 :=
    ⟨[], (7, 12), [], ⟨12, 9, [11]⟩, [], rfl, hbinds, htype, .link .root hcall, rfl, by simp⟩
  have hreceiver := (receiver_of_assigned hp hassigned (by simp [WalkState.memo]) hrun (List.mem_singleton_self 12)
    (.refl 12) (not_within_block hp.ordered hblocks) hcall hroot).2
  exact ⟨hrun, fun r hr hrcall => (hreceiver r hr hrcall).2.1 hread⟩

/-- In `x = keep(x.Pick("Nope"))` the variable is bound before the chain on it is read. -/
theorem not_read_before_bound : ¬ ∀ (ds : List PackageDump) (p : Program) (roles : RoleTable)
    (env env' : Environment) (s t : WalkState) (n value c recv sel : NodeId) (targets values args : List NodeId),
    Program.ofDumps ds = .ok p → p.assignment? n = some (targets, values) →
    (∀ m, p.Within n m → s.memo.lookup m = none) → visit p roles n env s = .ok env' t → value ∈ values →
    p.Within value c → (∀ b, p.Within value b → isBlock p b = true → ¬ p.Within b c) →
    p.methodCall? c = some (recv, sel, args) → p.isCall recv = false →
    ∃ r ∈ t.resolutions, r.call = c ∧ r.receiver = env.contextOf p recv := by
  intro h
  obtain ⟨hdumps, hrun, hassigned, hchild, hblocks, hcall, hroot, hne⟩ :
      Program.ofDumps [.rebinding .keepPick] = .ok (.rebinding .keepPick) ∧
      visit (.rebinding .keepPick) .sample 15 (Environment.bind {} 5 (.entry 0)) {} =
        .ok ⟨[(5, .untracked), (5, .entry 0)], []⟩ ⟨[⟨13, .untracked, .untracked⟩], {}⟩ ∧
      (Program.rebinding .keepPick).assignment? 15 = some ([7], [14]) ∧
      13 ∈ (Program.rebinding .keepPick).children 14 ∧ (∀ b < 15, isBlock (.rebinding .keepPick) b = false) ∧
      (Program.rebinding .keepPick).methodCall? 13 = some (9, 10, [12]) ∧
      (Program.rebinding .keepPick).isCall 9 = false ∧
      .untracked ≠ (Environment.bind {} 5 (.entry 0)).contextOf (.rebinding .keepPick) 9 := by
    decide +kernel
  obtain ⟨r, hr, -, hreceiver⟩ := h _ _ .sample _ _ {} _ 15 14 13 9 10 [7] [14] [12] hdumps hassigned
    (by simp [WalkState.memo]) hrun (List.mem_singleton_self 14) (.child hchild (.refl 13))
    (not_within_block (Program.isForest_of_ofDumps hdumps).ordered hblocks) hcall hroot
  rw [List.mem_singleton.1 hr] at hreceiver
  exact hne hreceiver

end Walk

end FluentChain
