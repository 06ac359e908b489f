import FluentChain.Proofs.Syntax.Forest
import FluentChain.Proofs.Walk.Session

/-!
# Growth of the walk

A walk only ever adds to its state (`WalkState.GrowsTo`): a context once found is kept, an examined expression
stays examined, and new diagnostics come behind the old ones.  A visit finds the contexts of all method calls in
its subtree (`known_of_visit`), and a visit to a subtree whose calls are all known changes nothing
(`still_visit`); so nothing is found by visiting a node again.
-/

namespace FluentChain

/-- The state `t` has all that `s` has, and more behind it. -/
structure WalkState.GrowsTo (s t : WalkState) : Prop where
  memo : ∀ call ctx, s.memo.lookup call = some ctx → t.memo.lookup call = some ctx
  checked : ∀ e, s.diagnostics.isChecked e = true → t.diagnostics.isChecked e = true
  found : ∀ e, s.diagnostics.foundAt e <+: t.diagnostics.foundAt e

namespace WalkState.GrowsTo

theorem refl (s : WalkState) : s.GrowsTo s :=
  ⟨fun _ _ h => h, fun _ h => h, fun _ => List.prefix_refl _⟩

theorem trans {s t u : WalkState} (h : s.GrowsTo t) (h' : t.GrowsTo u) : s.GrowsTo u :=
  ⟨fun call ctx hc => h'.memo call ctx (h.memo call ctx hc), fun e he => h'.checked e (h.checked e he),
    fun e => (h.found e).trans (h'.found e)⟩

theorem mark (s : WalkState) (n : NodeId) : s.GrowsTo { s with diagnostics := s.diagnostics.mark n } where
  memo _ _ h := h
  checked e he := (Diagnostics.isChecked_mark _ n e).2 (Or.inl he)
  found e := by simp

theorem push (s : WalkState) (n : NodeId) (d : Diagnostic) :
    s.GrowsTo { s with diagnostics := s.diagnostics.push n d } where
  memo _ _ h := h
  checked e he := (Diagnostics.isChecked_push _ n e d).2 (Or.inl he)
  found e := by
    rw [Diagnostics.foundAt_push]
    split
    · exact List.prefix_append _ _
    · exact List.prefix_refl _

theorem remember (s : WalkState) {r : Resolution} (h : s.memo.lookup r.call = none) :
    s.GrowsTo { s with resolutions := r :: s.resolutions } where
  memo call ctx hc := by
    have hne : (call == r.call) = false := by
      rw [beq_eq_false_iff_ne]
      rintro rfl
      rw [h] at hc
      cases hc
    simp only [WalkState.memo, List.map_cons, List.lookup_cons, hne]
    exact hc
  checked _ h := h
  found _ := List.prefix_refl _

end WalkState.GrowsTo

namespace Walk

variable {p : Program} {roles : RoleTable}

theorem examinable_growsTo (s : WalkState) (record : TypeId) : Examinable p roles record s.GrowsTo where
  mark t n h := h.trans (.mark t n)
  report t n d _ h := h.trans (.push t n d)

/-- Every part of a walk only adds to the state. -/
theorem invariant_growsTo (s : WalkState) :
    Invariant p roles (fun _ => True) s.GrowsTo (fun _ => s.GrowsTo) fun _ => True where
  child _ _ := trivial
  untracked := trivial
  known _ _ := trivial
  settle := by
    intro call recv sel args receiver _ _ _
    have happly : Keeps s.GrowsTo (applyRole p roles (roleOfName? p roles sel) call args receiver) :=
      keeps_applyRole (fun record _ => examinable_growsTo s record) _ call args
    refine Ensures.intro ?_ ?_
    · rintro u ctx t ⟨hu, hnew⟩ hrun
      obtain ⟨v, hv, rfl⟩ := settle_eq_ok.1 hrun
      have hv' : v.memo.lookup call = none := by
        rw [WalkState.memo, resolutions_of_applyRole hv]
        exact hnew
      exact ⟨(happly.of_ok hu hv).trans (.remember v hv'), trivial⟩
    · rintro u e t ⟨hu, -⟩ hrun
      exact happly.of_error hu (applyRole_of_settle_error hrun)

theorem growsTo_of_visits {ns : List NodeId} {env env' : Environment} {s t : WalkState}
    (h : ns.foldlM (fun env n => visit p roles n env) env s = .ok env' t) : s.GrowsTo t :=
  (((invariant_growsTo s).visits (fun _ _ _ => trivial) fun _ _ => trivial).of_ok (.refl s) h).1

/-- Visiting a node, with its children instead of its smaller children. -/
theorem visit_eq (hp : p.Ordered) (n : NodeId) (env : Environment) :
    visit p roles n env = do
      let inner ← enter p roles n env
      let after ← (p.children n).foldlM (fun env c => visit p roles c env) inner
      return if isBlock p n then env else after := by
  rw [visit]
  congr 1
  funext inner
  rw [← Program.subnodes_map_val (hp n), List.foldlM_map]

/-! ### What a visit finds -/

/-- The contexts of all method calls within a node are known. -/
def KnownWithin (p : Program) (s : WalkState) (n : NodeId) : Prop :=
  ∀ m, p.Within n m → (p.methodCall? m).isSome → (s.memo.lookup m).isSome

theorem KnownWithin.mono {s t : WalkState} {n : NodeId} (h : KnownWithin p s n) (hgrow : s.GrowsTo t) :
    KnownWithin p t n := by
  intro m hm hcall
  obtain ⟨ctx, hctx⟩ := Option.isSome_iff_exists.1 (h m hm hcall)
  rw [hgrow.memo m ctx hctx]
  rfl

theorem known_of_resolveCall {call : NodeId} {env : Environment} {ctx : ChainContext} {s t : WalkState}
    (hcall : (p.methodCall? call).isSome) (h : resolveCall p roles env call s = .ok ctx t) :
    t.memo.lookup call = some ctx := by
  obtain ⟨⟨recv, sel, args⟩, hparts⟩ := Option.isSome_iff_exists.1 hcall
  cases hmemo : s.memo.lookup call with
  | some known =>
    rw [resolveCall_known env hparts hmemo] at h
    cases h
    exact hmemo
  | none =>
    rw [resolveCall_new env hparts hmemo] at h
    obtain ⟨receiver, u, -, hsettle⟩ := bind_eq_ok.1 h
    rw [memo_of_settle hsettle, List.lookup_cons, beq_self_eq_true]

theorem known_of_enter {n : NodeId} {env inner : Environment} {s t : WalkState}
    (hcall : (p.methodCall? n).isSome) (h : enter p roles n env s = .ok inner t) :
    (t.memo.lookup n).isSome := by
  obtain ⟨⟨recv, sel, args⟩, hparts⟩ := Option.isSome_iff_exists.1 hcall
  obtain ⟨callee, spread, hnode, -⟩ := Program.methodCall?_eq_some.1 hparts
  unfold enter at h
  simp only [hnode] at h
  obtain ⟨ctx, u, hresolve, hreturn⟩ := bind_eq_ok.1 h
  cases hreturn
  rw [known_of_resolveCall hcall hresolve]
  rfl

/-- A visit finds the contexts of all method calls in the subtree. -/
theorem known_of_visit (hp : p.Ordered) {n : NodeId} {env env' : Environment} {s t : WalkState}
    (h : visit p roles n env s = .ok env' t) : KnownWithin p t n := by
  induction n using Nat.strongRecOn generalizing env env' s t with
  | ind n ih =>
    rw [visit_eq hp] at h
    obtain ⟨inner, u, henter, hrest⟩ := bind_eq_ok.1 h
    obtain ⟨after, v, hchildren, hreturn⟩ := bind_eq_ok.1 hrest
    cases hreturn
    intro m hm hcall
    rcases hm.eq_or_child with rfl | ⟨c, hc, hm⟩
    · obtain ⟨ctx, hctx⟩ := Option.isSome_iff_exists.1 (known_of_enter hcall henter)
      rw [(growsTo_of_visits hchildren).memo m ctx hctx]
      rfl
    · -- the visit to the child knows the call, and the visits to later children forget nothing
      obtain ⟨env₁, s₁, env₂, s₂, rest, hvisit, hlater⟩ := foldlM_eq_ok_of_mem hc hchildren
      exact (ih c (hp n c hc) hvisit).mono (growsTo_of_visits hlater) m hm hcall

/-- The walk of a program finds the contexts of all method calls in its declarations. -/
theorem known_of_program (hp : p.Ordered) {env : Environment} {s t : WalkState}
    (h : Walk.program p roles s = .ok env t) {call : NodeId} (hreach : p.Reachable call)
    (hcall : (p.methodCall? call).isSome) : (t.memo.lookup call).isSome := by
  obtain ⟨d, hd, hwithin⟩ := hreach
  obtain ⟨env₁, s₁, env₂, s₂, rest, hvisit, hlater⟩ := foldlM_eq_ok_of_mem hd h
  exact (known_of_visit hp hvisit).mono (growsTo_of_visits hlater) call hwithin hcall

/-! ### Visiting again -/

theorem still_resolveCall {call : NodeId} {s : WalkState} (env : Environment)
    (h : (p.methodCall? call).isSome → (s.memo.lookup call).isSome) :
    Still (resolveCall p roles env call) s := by
  cases hcall : p.methodCall? call with
  | none => exact ⟨.untracked, resolveCall_other env hcall s⟩
  | some parts =>
    obtain ⟨recv, sel, args⟩ := parts
    obtain ⟨ctx, hctx⟩ := Option.isSome_iff_exists.1 (h (by simp [hcall]))
    exact ⟨ctx, resolveCall_known env hcall hctx⟩

theorem still_bindTarget {value : NodeId} {s : WalkState} (env : Environment) (target : NodeId)
    (h : (p.methodCall? value).isSome → (s.memo.lookup value).isSome) :
    Still (bindTarget p roles env target value) s := by
  have hvalue : Still (valueContext p roles env value) s := by
    unfold valueContext
    split
    · split
      · exact still_resolveCall env h
      · exact .pure _ s
    · exact .pure _ s
    · exact .pure _ s
    · exact .pure _ s
  unfold bindTarget
  split
  · exact .pure env s
  · split
    · exact .pure env s
    · exact hvalue.bind fun ctx => .pure _ s

theorem still_bindTargets {targets values : List NodeId} {s : WalkState} (env : Environment)
    (h : ∀ value ∈ values, (p.methodCall? value).isSome → (s.memo.lookup value).isSome) :
    Still (bindTargets p roles env targets values) s := by
  unfold bindTargets
  refine .foldlM ?_ env
  rintro env' ⟨target, value⟩ hpair
  exact still_bindTarget env' target (h value (List.of_mem_zip hpair).2)

theorem still_enter {n : NodeId} {s : WalkState} (env : Environment) (h : KnownWithin p s n) :
    Still (enter p roles n env) s := by
  have hchild : ∀ c ∈ p.children n, (p.methodCall? c).isSome → (s.memo.lookup c).isSome :=
    fun c hc => h c (.child hc (.refl c))
  unfold enter
  split
  · exact .pure _ s
  · rename_i lhs rhs define hnode
    refine still_bindTargets env fun value hv => hchild value ?_
    simp [Program.children_of_node? hnode, Node.children, hv]
  · rename_i names values hnode
    refine still_bindTargets env fun value hv => hchild value ?_
    simp [Program.children_of_node? hnode, Node.children, hv]
  · exact (still_resolveCall env (h n (.refl n))).bind fun _ => .pure env s
  · exact .pure env s

/-- Where all calls are known, a visit succeeds and finds nothing new, in whatever environment. -/
theorem still_visit (hp : p.Ordered) {n : NodeId} {s : WalkState} (env : Environment)
    (h : KnownWithin p s n) : Still (visit p roles n env) s := by
  induction n using Nat.strongRecOn generalizing env with
  | ind n ih =>
    rw [visit_eq hp]
    refine (still_enter env h).bind fun inner => ?_
    have hchildren : Still ((p.children n).foldlM (fun env c => visit p roles c env) inner) s :=
      .foldlM (fun env c hc => ih c (hp n c hc) env fun m hm => h m (.child hc hm)) inner
    exact hchildren.bind fun after => .pure _ s

/-- A node that has been visited can be visited again at any later time, in any environment, and nothing new is
found by it; and whatever steps a walk does, they only add to what it has found. -/
theorem visit_idempotent (hp : p.Ordered) :
    (∀ steps n env env' t, visit p roles n env (runs p roles steps {}) = .ok env' t →
      ∀ later other, ∃ after,
        visit p roles n other (runs p roles later t) = .ok after (runs p roles later t)) ∧
    ∀ (s : WalkState) steps, s.GrowsTo (runs p roles steps s) := by
  have hgrow : ∀ (s : WalkState) steps, s.GrowsTo (runs p roles steps s) :=
    fun s steps => (invariant_growsTo s).runs steps (.refl s)
  refine ⟨?_, hgrow⟩
  intro steps n env env' t hvisit later other
  exact still_visit hp other ((known_of_visit hp hvisit).mono (hgrow t later))

theorem visit_idempotent_sample :
    visit .sample .sample 12 {} (runs .sample .sample [] {}) = .ok {} .sample ∧
    ∃ after, visit .sample .sample 12 (Environment.bind {} 3 .invalid)
        (runs .sample .sample [(.resolve 8, {})] .sample) =
      .ok after (runs .sample .sample [(.resolve 8, {})] .sample) := by
  have hvisit : visit .sample .sample 12 {} (runs .sample .sample [] {}) = .ok {} .sample := by
    decide +kernel
  exact ⟨hvisit, (visit_idempotent Program.ordered_sample).1 [] 12 {} {} .sample hvisit [(.resolve 8, {})] _⟩

end Walk

end FluentChain
