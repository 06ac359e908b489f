import FluentChain.Proofs.Syntax.Forest
import FluentChain.Proofs.Walk.Role

/-!
# Chains of calls

A chain `r.m₁(a₁).m₂(a₂)…mₖ(aₖ)` is resolved from its last call inwards, yet its contexts are found from the
left: each comes from the one before by the role of one method (`resolveCall_eq_foldlM`).  Read as plain lists of
records (`PlainContext`), a role opens a list, extends it, shortens it, or leaves it alone (`PlainContext.after?`).
-/

namespace FluentChain

/-- A context as the list of its records, from the root to the top. -/
inductive PlainContext
  | untracked
  | invalid
  | tracked (records : List TypeId)
deriving DecidableEq, Repr

def ChainContext.plain : ChainContext → PlainContext
  | .untracked => .untracked
  | .invalid => .invalid
  | .tracked stack => .tracked stack.records

/-- One call of a chain. -/
structure Link where
  call : NodeId
  sel : NodeId
  args : List NodeId
deriving DecidableEq, Repr

/-- `links` are the calls of a chain on `root` from the first on, and `last` is the last of them; it is `root`
itself where there are none. -/
inductive Program.Chain (p : Program) (root : NodeId) : List Link → NodeId → Prop
  | root : p.Chain root [] root
  | link {links : List Link} {recv call sel : NodeId} {args : List NodeId} : p.Chain root links recv →
      p.methodCall? call = some (recv, sel, args) → p.Chain root (links ++ [⟨call, sel, args⟩]) call

/-- The context after a call, on plain lists.  An entry call opens a new list on the record of its argument, if
it is one; an ascend drops the top of a list of at least two; a descend adds the record that its argument
selects; and where nothing is tracked, all but entry calls leave the context alone. -/
def PlainContext.after? (p : Program) (roles : RoleTable) (link : Link) (ctx : PlainContext) :
    Option PlainContext :=
  match Walk.roleOfName? p roles link.sel, ctx with
  | some .entry, _ => (Walk.openedRecord? p link.args).map fun record => .tracked [record]
  | some .ascend, .tracked records =>
    some (.tracked (if 1 < records.length then records.dropLast else records))
  | some .descend, .tracked records =>
    match records.getLast?.bind fun top => link.args.head?.bind (Walk.selectedRecord? p roles top) with
    | some target => some (.tracked (records ++ [target]))
    | none => some .invalid
  | _, ctx => some ctx

namespace ChainContext

theorem plain_descend {ctx : ChainContext} {record : TypeId} (h : ctx.top? = some record) (target : TypeId) :
    (ctx.descend target).plain = .tracked (ctx.records ++ [target]) := by
  cases ctx with
  | untracked => cases h
  | invalid => cases h
  | tracked stack => exact congrArg PlainContext.tracked (RecordStack.records_push stack target)

theorem plain_ascend {ctx : ChainContext} {record : TypeId} (h : ctx.top? = some record) :
    ctx.ascend.plain =
      .tracked (if 1 < ctx.records.length then ctx.records.dropLast else ctx.records) := by
  cases ctx with
  | untracked => cases h
  | invalid => cases h
  | tracked stack =>
    obtain ⟨top, below⟩ := stack
    cases below with
    | nil => rfl
    | cons next rest => simp [ascend, plain, records, RecordStack.pop?, RecordStack.records]

theorem plain_of_top? {ctx : ChainContext} {record : TypeId} (h : ctx.top? = some record) :
    ctx.plain = .tracked ctx.records ∧ ctx.records.getLast? = some record := by
  cases ctx with
  | untracked => cases h
  | invalid => cases h
  | tracked stack =>
    cases h
    exact ⟨rfl, by simp [records, RecordStack.records]⟩

theorem plain_of_top?_eq_none {ctx : ChainContext} (h : ctx.top? = none) :
    ctx = .untracked ∨ ctx = .invalid := by
  cases ctx with
  | untracked => exact Or.inl rfl
  | invalid => exact Or.inr rfl
  | tracked stack => cases h

end ChainContext

namespace Walk

variable {p : Program} {roles : RoleTable}

/-- Nothing but an entry call starts to track a chain. -/
theorem contextAfter?_of_top?_eq_none {role : Option Role} {args : List NodeId} {receiver : ChainContext}
    (hrole : role ≠ some .entry) (htop : receiver.top? = none) :
    contextAfter? p roles role args receiver = some receiver := by
  unfold contextAfter?
  rw [htop]
  cases role with
  | none => rfl
  | some role =>
    cases role with
    | entry => exact absurd rfl hrole
    | preserve => rfl
    | descend => rfl
    | ascend => rfl

private theorem after?_entry {link : Link} (hrole : roleOfName? p roles link.sel = some .entry)
    (ctx : PlainContext) :
    ctx.after? p roles link = (openedRecord? p link.args).map fun record => .tracked [record] := by
  unfold PlainContext.after?
  rw [hrole]

private theorem after?_of_top?_eq_none {link : Link} {receiver : ChainContext}
    (hrole : roleOfName? p roles link.sel ≠ some .entry) (htop : receiver.top? = none) :
    receiver.plain.after? p roles link = some receiver.plain := by
  unfold PlainContext.after?
  split
  · exact absurd ‹_› hrole
  all_goals
    rcases ChainContext.plain_of_top?_eq_none htop with rfl | rfl
    all_goals first
      | rfl
      | cases ‹ChainContext.plain _ = _›

/-- On plain lists, the context after a call is the one that the walk finds. -/
theorem after?_plain {link : Link} {receiver ctx : ChainContext}
    (h : contextAfter? p roles (roleOfName? p roles link.sel) link.args receiver = some ctx) :
    receiver.plain.after? p roles link = some ctx.plain := by
  by_cases hentry : roleOfName? p roles link.sel = some .entry
  · rw [hentry] at h
    obtain ⟨record, hopened, rfl⟩ := Option.map_eq_some_iff.1 h
    rw [after?_entry hentry, hopened]
    rfl
  · cases htop : receiver.top? with
    | none =>
      rw [contextAfter?_of_top?_eq_none hentry htop] at h
      cases h
      exact after?_of_top?_eq_none hentry htop
    | some record =>
      obtain ⟨hplain, hlast⟩ := ChainContext.plain_of_top? htop
      unfold contextAfter? at h
      unfold PlainContext.after?
      rw [htop] at h
      rw [hplain]
      cases hrole : roleOfName? p roles link.sel with
      | none =>
        simp only [hrole] at h
        cases h
        rw [hplain]
      | some role =>
        simp only [hrole] at h
        cases role with
        | entry => exact absurd hrole hentry
        | preserve =>
          cases h
          rw [hplain]
        | ascend =>
          cases h
          rw [ChainContext.plain_ascend htop]
        | descend =>
          simp only [hlast, Option.bind_some]
          rcases Option.eq_none_or_eq_some (link.args.head?.bind (selectedRecord? p roles record)) with
            hselected | ⟨target, hselected⟩
          · simp only [hselected] at h ⊢
            cases h
            rfl
          · simp only [hselected] at h ⊢
            cases h
            rw [ChainContext.plain_descend htop]

/-! ### From the left -/

/-- Settles one call of a chain from the context before it. -/
def settleLink (p : Program) (roles : RoleTable) (receiver : ChainContext) (link : Link) : Walk ChainContext :=
  settle p roles link.call link.sel link.args receiver

theorem recv_lt_of_methodCall? (hp : p.Ordered) {call recv sel : NodeId} {args : List NodeId}
    (h : p.methodCall? call = some (recv, sel, args)) : recv < call := by
  obtain ⟨callee, spread, hcall, hcallee⟩ := Program.methodCall?_eq_some.1 h
  have h₁ : callee < call := hp call callee (by simp [Program.children_of_node? hcall, Node.children])
  have h₂ : recv < callee := hp callee recv (by simp [Program.children_of_node? hcallee, Node.children])
  exact Nat.lt_trans h₂ h₁

theorem isCall_of_methodCall? {call recv sel : NodeId} {args : List NodeId}
    (h : p.methodCall? call = some (recv, sel, args)) : p.isCall call = true := by
  obtain ⟨callee, spread, hcall, -⟩ := Program.methodCall?_eq_some.1 h
  unfold Program.isCall
  rw [hcall]

theorem methodCall?_eq_none_of_isCall {n : NodeId} (h : p.isCall n = false) : p.methodCall? n = none := by
  refine Option.eq_none_iff_forall_ne_some.2 fun ⟨recv, sel, args⟩ hcall => ?_
  rw [isCall_of_methodCall? hcall] at h
  cases h

/-- A call names no variable. -/
theorem contextOf_of_isCall (env : Environment) {n : NodeId} (h : p.isCall n = true) :
    env.contextOf p n = .untracked := by
  unfold Program.isCall at h
  split at h
  · rename_i hcall
    unfold Environment.contextOf
    rw [Program.identObject?, hcall]
    rfl
  · cases h

/-- The receiver of the first call of a chain is looked up. -/
theorem receiverContext_root (hp : p.Ordered) {root call sel : NodeId} {args : List NodeId}
    (hroot : p.methodCall? root = none) (hcall : p.methodCall? call = some (root, sel, args))
    (env : Environment) (s : WalkState) :
    receiverContext p roles env call root s = .ok (env.contextOf p root) s := by
  unfold receiverContext
  split
  · rename_i h
    rw [if_pos (recv_lt_of_methodCall? hp hcall), resolveCall_other env hroot, contextOf_of_isCall env h]
  · rfl

/-- Resolving a chain that is not known yet settles its calls from the left. -/
theorem resolveCall_eq_foldlM (hp : p.Ordered) {root last : NodeId} {links : List Link}
    (hchain : p.Chain root links last) (hroot : p.methodCall? root = none) (hlinks : links ≠ [])
    (env : Environment) {s : WalkState} (hnew : ∀ link ∈ links, s.memo.lookup link.call = none) :
    resolveCall p roles env last s = links.foldlM (settleLink p roles) (env.contextOf p root) s := by
  induction hchain with
  | root => exact absurd rfl hlinks
  | @link links recv call sel args hrest hcall ih =>
    -- the receiver of the last call is the chain before it, or the root
    have hreceiver : receiverContext p roles env call recv s =
        links.foldlM (settleLink p roles) (env.contextOf p root) s := by
      cases hrest with
      | root => exact receiverContext_root hp hroot hcall env s
      | link hrest' hrecv =>
        rw [← ih (by simp) fun link hlink => hnew link (List.mem_append_left _ hlink)]
        unfold receiverContext
        rw [if_pos (isCall_of_methodCall? hrecv), if_pos (recv_lt_of_methodCall? hp hcall)]
    have hlast : s.memo.lookup call = none := hnew ⟨call, sel, args⟩ (by simp)
    rw [resolveCall_new env hcall hlast, List.foldlM_append, bind_eq_of_eq hreceiver]
    simp only [List.foldlM_cons, List.foldlM_nil, bind_pure]
    rfl

/-- The contexts of the calls of a chain, first to last, when all of them are settled from the left. -/
theorem exists_contexts_of_foldlM {links : List Link} {start ctx : ChainContext} {s t : WalkState}
    (h : links.foldlM (settleLink p roles) start s = .ok ctx t) :
    ∃ ctxs : List ChainContext, ctxs.length = links.length ∧ (start :: ctxs).getLast? = some ctx ∧
      t.memo = ((links.map (·.call)).zip ctxs).reverse ++ s.memo ∧
      ∀ (i : Nat) (link : Link) (receiver : ChainContext), links[i]? = some link →
        (start :: ctxs)[i]? = some receiver → ∃ after, ctxs[i]? = some after ∧
          contextAfter? p roles (roleOfName? p roles link.sel) link.args receiver = some after := by
  induction links generalizing start s with
  | nil =>
    cases h
    exact ⟨[], rfl, rfl, rfl, fun i link receiver hlink => by simp at hlink⟩
  | cons link links ih =>
    rw [List.foldlM_cons] at h
    obtain ⟨next, u, hsettle, hrest⟩ := bind_eq_ok.1 h
    obtain ⟨ctxs, hlength, hlast, hmemo, hstep⟩ := ih hrest
    refine ⟨next :: ctxs, by simp [hlength], ?_, ?_, ?_⟩
    · rw [List.getLast?_cons_cons]
      exact hlast
    · rw [hmemo, memo_of_settle hsettle]
      simp
    · intro i link' receiver hlink hreceiver
      cases i with
      | zero =>
        cases hlink
        cases hreceiver
        obtain ⟨v, hv, -⟩ := settle_eq_ok.1 hsettle
        exact ⟨next, rfl, (returns_applyRole _ _ _ _).of_ok trivial hv⟩
      | succ i => exact hstep i link' receiver hlink hreceiver

/-- A call on a chain that is not tracked, and that opens none, examines nothing. -/
theorem settle_of_top?_eq_none {call sel : NodeId} {args : List NodeId} {receiver : ChainContext}
    (hrole : roleOfName? p roles sel ≠ some .entry) (htop : receiver.top? = none) (s : WalkState) :
    settle p roles call sel args receiver s =
      .ok receiver { s with resolutions := ⟨call, receiver, receiver⟩ :: s.resolutions } := by
  have happly : applyRole p roles (roleOfName? p roles sel) call args receiver s = .ok receiver s := by
    unfold applyRole
    rw [htop]
    cases hcase : roleOfName? p roles sel with
    | none => rfl
    | some role =>
      cases role with
      | entry => exact absurd hcase hrole
      | preserve => rfl
      | descend => rfl
      | ascend => rfl
  exact settle_eq_ok.2 ⟨s, happly, rfl⟩

/-- A context in which nothing is tracked lasts until the next entry call. -/
theorem last_until_entry {links : List Link} {ctxs : List ChainContext} {i j : Nat} {ctx : ChainContext}
    (hstep : ∀ (i : Nat) (link : Link) (receiver : ChainContext), links[i]? = some link →
      ctxs[i]? = some receiver → ∃ after, ctxs[i + 1]? = some after ∧
        contextAfter? p roles (roleOfName? p roles link.sel) link.args receiver = some after)
    (hij : i ≤ j) (hj : j ≤ links.length) (hi : ctxs[i]? = some ctx) (htop : ctx.top? = none)
    (hentry : ∀ (k : Nat) (link : Link), i ≤ k → k < j → links[k]? = some link →
      roleOfName? p roles link.sel ≠ some .entry) : ctxs[j]? = some ctx := by
  induction hij with
  | refl => exact hi
  | @step j hij ih =>
    have hctx := ih (Nat.le_of_lt hj) fun k link hik hkj hlink => hentry k link hik (Nat.lt_succ_of_lt hkj) hlink
    have hlink : links[j]? = some links[j] := List.getElem?_eq_getElem hj
    obtain ⟨after, hafter, hcontext⟩ := hstep j _ ctx hlink hctx
    rw [contextAfter?_of_top?_eq_none (hentry j _ hij (Nat.lt_succ_self j) hlink) htop] at hcontext
    cases hcontext
    exact hafter

/-- The calls of a chain of which none is known yet are settled from the left when the last one is resolved.  If
that succeeds, just these calls are known afterwards beside those known before, each with the context that its
method makes of the context before it, on plain lists; where nothing is tracked, a call other than an entry call
examines nothing, and the context lasts until the next entry call.  The first context is that of the variable
that the chain starts from. -/
theorem resolveCall_chain (hp : p.Ordered) {root last : NodeId} {links : List Link}
    (hchain : p.Chain root links last) (hroot : p.methodCall? root = none) (hlinks : links ≠ [])
    (env : Environment) {s : WalkState} (hnew : ∀ link ∈ links, s.memo.lookup link.call = none) :
    resolveCall p roles env last s = links.foldlM (settleLink p roles) (env.contextOf p root) s ∧
    (p.isCall root = true → env.contextOf p root = .untracked) ∧
    (∀ link ∈ links, roleOfName? p roles link.sel ≠ some .entry → ∀ receiver u, receiver.top? = none →
      settleLink p roles receiver link u =
        .ok receiver { u with resolutions := ⟨link.call, receiver, receiver⟩ :: u.resolutions }) ∧
    ∀ ctx t, resolveCall p roles env last s = .ok ctx t →
      ∃ ctxs : List ChainContext, ctxs.length = links.length ∧ ctxs.getLast? = some ctx ∧
        t.memo = ((links.map (·.call)).zip ctxs).reverse ++ s.memo ∧
        (∀ (i : Nat) (link : Link) (receiver : ChainContext), links[i]? = some link →
          (env.contextOf p root :: ctxs)[i]? = some receiver →
          ∃ after, ctxs[i]? = some after ∧ receiver.plain.after? p roles link = some after.plain) ∧
        ∀ (i j : Nat) (early : ChainContext), i ≤ j → j ≤ links.length →
          (env.contextOf p root :: ctxs)[i]? = some early → early.top? = none →
          (∀ (k : Nat) (link : Link), i ≤ k → k < j → links[k]? = some link →
            roleOfName? p roles link.sel ≠ some .entry) →
          (env.contextOf p root :: ctxs)[j]? = some early := by
  have hfold : resolveCall p roles env last s = links.foldlM (settleLink p roles) (env.contextOf p root) s :=
    resolveCall_eq_foldlM hp hchain hroot hlinks env hnew
  refine ⟨hfold, contextOf_of_isCall env, ?_, ?_⟩
  · intro link _ hrole receiver u htop
    exact settle_of_top?_eq_none hrole htop u
  · intro ctx t hrun
    obtain ⟨ctxs, hlength, hlast, hmemo, hstep⟩ := exists_contexts_of_foldlM (hfold ▸ hrun)
    refine ⟨ctxs, hlength, ?_, hmemo, ?_, ?_⟩
    · cases ctxs with
      | nil => exact absurd (List.eq_nil_of_length_eq_zero hlength.symm) hlinks
      | cons first rest => exact hlast
    · intro i link receiver hlink hreceiver
      obtain ⟨after, hafter, hcontext⟩ := hstep i link receiver hlink hreceiver
      exact ⟨after, hafter, after?_plain hcontext⟩
    · intro i j early hij hj hi htop hentry
      exact last_until_entry hstep hij hj hi htop hentry

theorem resolveCall_chain_sample :
    resolveCall .sample .sample {} 12 {} = .ok (.tracked ⟨1, [0]⟩) .sample ∧
    ∃ ctxs : List ChainContext, ctxs.length = 3 ∧ ctxs.getLast? = some (.tracked ⟨1, [0]⟩) ∧
      WalkState.sample.memo = ([4, 8, 12].zip ctxs).reverse := by
  have hchain : Program.Chain .sample 0 [⟨4, 1, [3]⟩, ⟨8, 5, [7]⟩, ⟨12, 9, [11]⟩] 12 :=
    .link (.link (.link .root rfl) rfl) rfl
  have hrun : resolveCall .sample .sample {} 12 {} = .ok (.tracked ⟨1, [0]⟩) .sample := by decide +kernel
  have hnew : ∀ link ∈ [(⟨4, 1, [3]⟩ : Link), ⟨8, 5, [7]⟩, ⟨12, 9, [11]⟩],
      ({} : WalkState).memo.lookup link.call = none := by decide
  obtain ⟨ctxs, hlength, hlast, hmemo, -⟩ :=
    (resolveCall_chain Program.ordered_sample hchain rfl (by simp) {} hnew).2.2.2 _ _ hrun
  exact ⟨hrun, ctxs, hlength, hlast, hmemo.trans (List.append_nil _)⟩

end Walk

end FluentChain
