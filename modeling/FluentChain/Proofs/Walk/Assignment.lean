import FluentChain.Proofs.Syntax.Lowered
import FluentChain.Proofs.Walk.Chain
import FluentChain.Proofs.Walk.Growth

/-!
# Assignments

An assignment binds its targets pair by pair, and each value is read where the pairs before it are bound already.
That comes to the same as reading all values first and binding then (`bindTogether`) where no value reads a
variable that an earlier pair binds (`bindTargets_eq_bindTogether`).  It does not in general: a swap gives both
variables the context of one (`not_simultaneous_of_swap`).
-/

namespace FluentChain

/-- Binds variables one after another. -/
def Environment.bindAll (env : Environment) (bindings : List (ObjId × ChainContext)) : Environment :=
  bindings.foldl (fun env (obj, ctx) => env.bind obj ctx) env

namespace Environment

variable {env : Environment}

theorem binding?_bindAll_of_not_mem {bindings : List (ObjId × ChainContext)} {obj : ObjId}
    (h : obj ∉ bindings.map (·.1)) : (env.bindAll bindings).binding? obj = env.binding? obj := by
  induction bindings generalizing env with
  | nil => rfl
  | cons b bindings ih =>
    obtain ⟨other, ctx⟩ := b
    rw [List.map_cons, List.mem_cons, not_or] at h
    exact (ih h.2).trans (binding?_bind_of_ne env h.1 ctx)

theorem binding?_bindAll_of_mem {bindings : List (ObjId × ChainContext)} (hnodup : (bindings.map (·.1)).Nodup)
    {obj : ObjId} {ctx : ChainContext} (h : (obj, ctx) ∈ bindings) :
    (env.bindAll bindings).binding? obj = some ctx := by
  induction bindings generalizing env with
  | nil => cases h
  | cons b bindings ih =>
    rw [List.map_cons, List.nodup_cons] at hnodup
    rcases List.mem_cons.1 h with rfl | h
    · exact (binding?_bindAll_of_not_mem hnodup.1).trans (binding?_bind_self env obj ctx)
    · exact ih hnodup.2 h

end Environment

namespace Walk

variable (p : Program) (roles : RoleTable)

/-- The variable that a value starts from: the one that it names, or the one that its chain of calls is on. -/
def source? (value : NodeId) : Option ObjId :=
  match p.methodCall? value with
  | some (recv, _, _) =>
    if p.isCall recv then
      if recv < value then source? recv else none
    else p.identObject? recv
  | none => p.identObject? value
termination_by value

/-- The variable that a pair of a target and a value binds: none if the value is a call with several results. -/
def pairVariable? (pair : NodeId × NodeId) : Option ObjId :=
  if isMultiResult p pair.2 then none else boundVariable? p roles pair.1

/-- No value reads a variable that an earlier pair binds. -/
def Independent (pairs : List (NodeId × NodeId)) : Prop :=
  pairs.Pairwise fun a b => ∀ obj, pairVariable? p roles a = some obj → source? p b.2 ≠ some obj

/-- What a pair binds, where its value is read in the environment `env`. -/
def pairBinding? (env : Environment) (pair : NodeId × NodeId) : Walk (Option (ObjId × ChainContext)) :=
  match pairVariable? p roles pair with
  | none => return none
  | some obj => return some (obj, ← valueContext p roles env pair.2)

/-- Reads all values before any target is bound. -/
def bindTogether (env : Environment) (pairs : List (NodeId × NodeId)) : Walk Environment := do
  let bindings ← pairs.mapM (pairBinding? p roles env)
  return env.bindAll (bindings.filterMap id)

variable {p roles} {env env' : Environment}

/-! ### What a value reads -/

theorem contextOf_congr {n : NodeId} (h : ∀ obj, p.identObject? n = some obj → env.lookup? obj = env'.lookup? obj) :
    env.contextOf p n = env'.contextOf p n := by
  unfold Environment.contextOf
  cases hobj : p.identObject? n with
  | none => rfl
  | some obj => rw [Option.bind_some, Option.bind_some, h obj hobj]

/-- The context of a call depends on the environment only through the variable that its chain is on. -/
theorem resolveCall_congr {call : NodeId}
    (h : ∀ obj, source? p call = some obj → env.lookup? obj = env'.lookup? obj) :
    resolveCall p roles env call = resolveCall p roles env' call := by
  induction call using Nat.strongRecOn with
  | ind call ih =>
    funext s
    cases hcall : p.methodCall? call with
    | none => rw [resolveCall_other env hcall, resolveCall_other env' hcall]
    | some parts =>
      obtain ⟨recv, sel, args⟩ := parts
      cases hmemo : s.memo.lookup call with
      | some ctx => rw [resolveCall_known env hcall hmemo, resolveCall_known env' hcall hmemo]
      | none =>
        rw [resolveCall_new env hcall hmemo, resolveCall_new env' hcall hmemo]
        unfold source? at h
        simp only [hcall] at h
        have hreceiver : receiverContext p roles env call recv = receiverContext p roles env' call recv := by
          unfold receiverContext
          split
          · rename_i hrecv
            rw [if_pos hrecv] at h
            split
            · rename_i hlt
              rw [if_pos hlt] at h
              exact ih recv hlt h
            · rfl
          · rename_i hrecv
            rw [if_neg hrecv] at h
            rw [contextOf_congr h]
        rw [hreceiver]

theorem valueContext_congr {value : NodeId}
    (h : ∀ obj, source? p value = some obj → env.lookup? obj = env'.lookup? obj) :
    valueContext p roles env value = valueContext p roles env' value := by
  have hnamed : p.methodCall? value = none → env.contextOf p value = env'.contextOf p value := by
    intro hcall
    unfold source? at h
    simp only [hcall] at h
    exact contextOf_congr h
  unfold valueContext
  split
  · rw [resolveCall_congr h]
  · rename_i hnode
    rw [hnamed (by simp [Program.methodCall?, hnode])]
  · rename_i hnode
    rw [hnamed (by simp [Program.methodCall?, hnode])]
  · rfl

/-! ### One pair after another -/

section

variable {pair : NodeId × NodeId}

theorem bindTarget_of_none (env : Environment) (h : pairVariable? p roles pair = none) :
    bindTarget p roles env pair.1 pair.2 = pure env := by
  unfold pairVariable? at h
  unfold bindTarget
  split
  · rfl
  · rename_i hsingle
    rw [if_neg hsingle] at h
    simp only [h]

theorem bindTarget_of_some (env : Environment) {obj : ObjId} (h : pairVariable? p roles pair = some obj) :
    bindTarget p roles env pair.1 pair.2 = do return env.bind obj (← valueContext p roles env pair.2) := by
  unfold pairVariable? at h
  unfold bindTarget
  split
  · rename_i hmulti
    rw [if_pos hmulti] at h
    cases h
  · rename_i hsingle
    rw [if_neg hsingle] at h
    simp only [h]

theorem pairBinding?_of_none (env : Environment) (h : pairVariable? p roles pair = none) :
    pairBinding? p roles env pair = pure none := by
  unfold pairBinding?
  rw [h]

theorem pairBinding?_of_some (env : Environment) {obj : ObjId} (h : pairVariable? p roles pair = some obj) :
    pairBinding? p roles env pair = do return some (obj, ← valueContext p roles env pair.2) := by
  unfold pairBinding?
  rw [h]

end

/-- Where `done` is bound already and no value reads it, the pairs bind what their values are without it. -/
theorem foldlM_bindTarget {pairs : List (NodeId × NodeId)} (hpairs : Independent p roles pairs)
    (done : List (ObjId × ChainContext))
    (hdone : ∀ pair ∈ pairs, ∀ obj ∈ done.map (·.1), source? p pair.2 ≠ some obj) :
    pairs.foldlM (fun env pair => bindTarget p roles env pair.1 pair.2) (env.bindAll done) = do
      let bindings ← pairs.mapM (pairBinding? p roles env)
      return env.bindAll (done ++ bindings.filterMap id) := by
  induction pairs generalizing done with
  | nil => simp
  | cons pair pairs ih =>
    obtain ⟨hfirst, hrest⟩ := List.pairwise_cons.1 hpairs
    have hlater : ∀ pair ∈ pairs, ∀ obj ∈ done.map (·.1), source? p pair.2 ≠ some obj :=
      fun pair hpair => hdone pair (by simp [hpair])
    rw [List.foldlM_cons, List.mapM_cons]
    cases hvariable : pairVariable? p roles pair with
    | none =>
      rw [bindTarget_of_none _ hvariable, pairBinding?_of_none _ hvariable, pure_bind, pure_bind, ih hrest done hlater]
      simp
    | some obj =>
      have hread : valueContext p roles (env.bindAll done) pair.2 = valueContext p roles env pair.2 := by
        refine valueContext_congr fun other hother => ?_
        have hnot : other ∉ done.map (·.1) := fun hmem => hdone pair (by simp) other hmem hother
        unfold Environment.lookup?
        rw [Environment.binding?_bindAll_of_not_mem hnot]
      -- the later pairs see this binding too, and do not read it
      have hnext : ∀ ctx, ∀ pair ∈ pairs, ∀ other ∈ (done ++ [(obj, ctx)]).map Prod.fst,
          source? p pair.2 ≠ some other := by
        intro ctx pair hpair other hother
        rw [List.map_append, List.mem_append] at hother
        rcases hother with hother | hother
        · exact hlater pair hpair other hother
        · rw [List.mem_singleton.1 hother]
          exact hfirst pair hpair obj hvariable
      have hbind : ∀ ctx, (env.bindAll done).bind obj ctx = env.bindAll (done ++ [(obj, ctx)]) := by
        intro ctx
        simp [Environment.bindAll]
      rw [bindTarget_of_some _ hvariable, pairBinding?_of_some _ hvariable, hread]
      simp only [bind_assoc, pure_bind]
      refine bind_congr fun ctx => ?_
      rw [hbind, ih hrest _ (hnext ctx)]
      simp

theorem bindTargets_eq_bindTogether {targets values : List NodeId}
    (h : Independent p roles (targets.zip values)) :
    bindTargets p roles env targets values = bindTogether p roles env (targets.zip values) :=
  foldlM_bindTarget h [] (by simp)

/-! ### What is bound in the end -/

theorem growsTo_of_pairBindings {pairs : List (NodeId × NodeId)} {bindings : List (Option (ObjId × ChainContext))}
    {s t : WalkState} (h : pairs.mapM (pairBinding? p roles env) s = .ok bindings t) : s.GrowsTo t := by
  have hpair : ∀ pair, Keeps s.GrowsTo (pairBinding? p roles env pair) := by
    intro pair
    unfold pairBinding?
    split
    · exact Ensures.pure fun _ hu => hu
    · refine Ensures.bind (R := fun _ => s.GrowsTo) ?_ fun _ => Ensures.pure fun _ hu => hu
      exact ((invariant_growsTo s).valueContext (fun _ _ _ => trivial) trivial).weaken (fun _ hu => hu)
        (fun _ _ hQ => hQ.1) fun _ _ hE => hE
  exact (Ensures.mapM (J := fun _ => s.GrowsTo) (fun _ pair _ => hpair pair) []).of_ok (.refl s) h

/-- The variables that are bound are those of the pairs. -/
theorem variables_of_pairBindings {pairs : List (NodeId × NodeId)}
    {bindings : List (Option (ObjId × ChainContext))} {s t : WalkState}
    (h : pairs.mapM (pairBinding? p roles env) s = .ok bindings t) :
    (bindings.filterMap id).map (·.1) = pairs.filterMap (pairVariable? p roles) := by
  induction pairs generalizing bindings s with
  | nil =>
    cases h
    rfl
  | cons pair pairs ih =>
    rw [List.mapM_cons] at h
    obtain ⟨binding, u, hfirst, h⟩ := bind_eq_ok.1 h
    obtain ⟨rest, v, hrest, h⟩ := bind_eq_ok.1 h
    cases h
    cases hvariable : pairVariable? p roles pair with
    | none =>
      rw [pairBinding?_of_none env hvariable] at hfirst
      cases hfirst
      simpa [hvariable] using ih hrest
    | some obj =>
      rw [pairBinding?_of_some env hvariable] at hfirst
      obtain ⟨ctx, w, -, hfirst⟩ := bind_eq_ok.1 hfirst
      cases hfirst
      simpa [hvariable] using ih hrest

/-- Each pair binds its variable to the context that its value is found to have on the way. -/
theorem mem_pairBindings {pairs : List (NodeId × NodeId)} {bindings : List (Option (ObjId × ChainContext))}
    {s t : WalkState} (h : pairs.mapM (pairBinding? p roles env) s = .ok bindings t) {pair : NodeId × NodeId}
    (hpair : pair ∈ pairs) {obj : ObjId} (hvariable : pairVariable? p roles pair = some obj) :
    ∃ ctx u v, s.GrowsTo u ∧ valueContext p roles env pair.2 u = .ok ctx v ∧ v.GrowsTo t ∧
      (obj, ctx) ∈ bindings.filterMap id := by
  obtain ⟨before, after, rfl⟩ := List.append_of_mem hpair
  rw [List.mapM_append] at h
  obtain ⟨bindings₁, u, hbefore, h⟩ := bind_eq_ok.1 h
  obtain ⟨bindings₂, _, hrest, h⟩ := bind_eq_ok.1 h
  cases h
  rw [List.mapM_cons, pairBinding?_of_some env hvariable] at hrest
  obtain ⟨binding, v, hvalue, hrest⟩ := bind_eq_ok.1 hrest
  obtain ⟨ctx, _, hvalue, hreturn⟩ := bind_eq_ok.1 hvalue
  cases hreturn
  obtain ⟨bindings₃, _, hafter, hrest⟩ := bind_eq_ok.1 hrest
  cases hrest
  exact ⟨ctx, u, v, growsTo_of_pairBindings hbefore, hvalue, growsTo_of_pairBindings hafter, by simp⟩

/-- An assignment or declaration whose values do not read what earlier pairs bind, and whose targets are distinct
variables, reads all values before it binds: each target is bound to the context that its value has in the
environment before the statement. -/
theorem enter_simultaneous {n : NodeId} {targets values : List NodeId}
    (hnode : (∃ define, p.node? n = some (.assign targets values define)) ∨
      p.node? n = some (.valueDecl targets values))
    (hindependent : Independent p roles (targets.zip values))
    (hdistinct : ((targets.zip values).filterMap (pairVariable? p roles)).Nodup) :
    enter p roles n env = bindTogether p roles env (targets.zip values) ∧
    ∀ s env' t, enter p roles n env s = .ok env' t → ∀ pair ∈ targets.zip values, ∀ obj,
      pairVariable? p roles pair = some obj → ∃ ctx u v, s.GrowsTo u ∧
        valueContext p roles env pair.2 u = .ok ctx v ∧ v.GrowsTo t ∧ env'.binding? obj = some ctx := by
  have henter : enter p roles n env = bindTogether p roles env (targets.zip values) := by
    rw [← bindTargets_eq_bindTogether hindependent]
    unfold enter
    rcases hnode with ⟨define, hnode⟩ | hnode
    · simp only [hnode]
    · simp only [hnode]
  refine ⟨henter, ?_⟩
  intro s env' t hrun pair hpair obj hvariable
  rw [henter] at hrun
  obtain ⟨bindings, _, hbindings, hreturn⟩ := bind_eq_ok.1 hrun
  cases hreturn
  obtain ⟨ctx, u, v, hu, hvalue, hv, hmem⟩ := mem_pairBindings hbindings hpair hvariable
  refine ⟨ctx, u, v, hu, hvalue, hv, Environment.binding?_bindAll_of_mem ?_ hmem⟩
  rw [variables_of_pairBindings hbindings]
  exact hdistinct

end Walk

/-! ### Three pairs -/

/-- The dump of `x, y, z = y, q.From(User{}), q.From(User{}).In("Home")`. -/
def PackageDump.reassigned : PackageDump where
  files := [{
    name := "a"
    decls := [
      .assign [.ident { name := "x", obj := "x", pos := "1:1" }, .ident { name := "y", obj := "y", pos := "1:4" },
          .ident { name := "z", obj := "z", pos := "1:7" }]
        [.ident { name := "y", obj := "y", pos := "1:11" },
          .call (.selector (.ident { name := "q", obj := "q", pos := "1:14" })
            { name := "From", obj := "(Query).From", pos := "1:16" } none) [.composite "User" [] "1:21"] false none,
          .call (.selector
            (.call (.selector (.ident { name := "q", obj := "q", pos := "1:30" })
              { name := "From", obj := "(Query).From", pos := "1:32" } none) [.composite "User" [] "1:37"] false none)
            { name := "In", obj := "(Query).In", pos := "1:45" } none) [.literal .string "\"Home\"" "1:48"] false none]
        false] }]
  types := PackageDump.sample.types
  objects := PackageDump.sample.objects ++ [{ key := "x", kind := .var, type := "Query" },
    { key := "y", kind := .var, type := "Query" }, { key := "z", kind := .var, type := "Query" }]

def Program.reassigned : Program := (Program.ofDumps [.reassigned]).toOption.getD {}

namespace Walk

/-- Where `x` is at a user and `y` at an address, `x` is bound to what `y` is at before the statement, though `y` is
bound anew, to a user; and `z` is bound to an address below a user. -/
theorem enter_simultaneous_reassigned :
    let env : Environment := ⟨[(6, .entry 1)], [[(5, .entry 0)]]⟩
    let env' : Environment := env.bindAll [(5, .entry 1), (6, .entry 0), (7, .tracked ⟨1, [0]⟩)]
    let t : WalkState := ⟨[⟨17, .entry 0, .tracked ⟨1, [0]⟩⟩, ⟨13, .untracked, .entry 0⟩, ⟨8, .untracked, .entry 0⟩],
      ⟨[16], []⟩⟩
    Program.reassigned.node? 18 = some (.assign [0, 1, 2] [3, 8, 17] false) ∧
    Independent .reassigned .sample [(0, 3), (1, 8), (2, 17)] ∧
    ([(0, 3), (1, 8), (2, 17)].filterMap (pairVariable? .reassigned .sample)).Nodup ∧
    enter .reassigned .sample 18 env {} = .ok env' t ∧
    bindTogether .reassigned .sample env [(0, 3), (1, 8), (2, 17)] {} = .ok env' t ∧
    (∃ ctx u v, WalkState.GrowsTo {} u ∧ valueContext .reassigned .sample env 3 u = .ok ctx v ∧ v.GrowsTo t ∧
      env'.binding? 5 = some ctx) ∧
    (∃ ctx u v, WalkState.GrowsTo {} u ∧ valueContext .reassigned .sample env 8 u = .ok ctx v ∧ v.GrowsTo t ∧
      env'.binding? 6 = some ctx) ∧
    ∃ ctx u v, WalkState.GrowsTo {} u ∧ valueContext .reassigned .sample env 17 u = .ok ctx v ∧ v.GrowsTo t ∧
      env'.binding? 7 = some ctx := by
  intro env env' t
  obtain ⟨hnode, hx, hy, hz, hvalue, hvalue', hnodup, hrun⟩ :
      Program.reassigned.node? 18 = some (.assign [0, 1, 2] [3, 8, 17] false) ∧
      pairVariable? .reassigned .sample (0, 3) = some 5 ∧ pairVariable? .reassigned .sample (1, 8) = some 6 ∧
      pairVariable? .reassigned .sample (2, 17) = some 7 ∧ source? .reassigned 8 = some 3 ∧
      source? .reassigned 17 = some 3 ∧
      ([(0, 3), (1, 8), (2, 17)].filterMap (pairVariable? .reassigned .sample)).Nodup ∧
      enter .reassigned .sample 18 env {} = .ok env' t := by
    decide +kernel
  have hindependent : Independent .reassigned .sample [(0, 3), (1, 8), (2, 17)] := by
    simp [Independent, hx, hy, hvalue, hvalue']
  have hsimultaneous := @enter_simultaneous .reassigned .sample env 18 _ _ (Or.inl ⟨false, hnode⟩) hindependent hnodup
  have hbinds := hsimultaneous.2 {} env' t hrun
  exact ⟨hnode, hindependent, hnodup, hrun, hsimultaneous.1 ▸ hrun, hbinds (0, 3) (by simp) 5 hx,
    hbinds (1, 8) (by simp) 6 hy, hbinds (2, 17) (by simp) 7 hz⟩

end Walk

/-! ### A swap -/

/-- The dump of `x := q.From(User{}); y := q.From(Address{}); x, y = y, x; y.Pick("Home")`. -/
def PackageDump.swapped : PackageDump where
  files := [{
    name := "a"
    decls := [
      .assign [.ident { name := "x", obj := "x", isDef := true, pos := "1:1" }]
        [.call (.selector (.ident { name := "q", obj := "q", pos := "1:6" })
          { name := "From", obj := "(Query).From", pos := "1:8" } none) [.composite "User" [] "1:13"] false none]
        true,
      .assign [.ident { name := "y", obj := "y", isDef := true, pos := "2:1" }]
        [.call (.selector (.ident { name := "q", obj := "q", pos := "2:6" })
          { name := "From", obj := "(Query).From", pos := "2:8" } none) [.composite "Address" [] "2:13"] false none]
        true,
      .assign [.ident { name := "x", obj := "x", pos := "3:1" }, .ident { name := "y", obj := "y", pos := "3:4" }]
        [.ident { name := "y", obj := "y", pos := "3:8" }, .ident { name := "x", obj := "x", pos := "3:11" }] false,
      .call (.selector (.ident { name := "y", obj := "y", pos := "4:1" })
        { name := "Pick", obj := "(Query).Pick", pos := "4:3" } none) [.literal .string "\"Home\"" "4:8"] false none] }]
  types := PackageDump.sample.types
  objects := PackageDump.sample.objects ++
    [{ key := "x", kind := .var, type := "Query" }, { key := "y", kind := .var, type := "Query" }]

def Program.swapped : Program := (Program.ofDumps [.swapped]).toOption.getD {}

namespace Walk

/-- In `x, y = y, x` the second value is read where `x` is bound anew, so `y` keeps its context. -/
theorem not_simultaneous_of_swap : ¬ ∀ (p : Program) (roles : RoleTable) (env env' : Environment) (n : NodeId)
    (targets values : List NodeId) (define : Bool) (s t : WalkState),
    p.node? n = some (.assign targets values define) →
    ((targets.zip values).filterMap (pairVariable? p roles)).Nodup → enter p roles n env s = .ok env' t →
    ∀ pair ∈ targets.zip values, ∀ obj name source isDef, pairVariable? p roles pair = some obj →
      p.node? pair.2 = some (.ident name source isDef) →
      env'.binding? obj = some (env.contextOf p pair.2) := by
  intro h
  obtain ⟨hrun, hnode, hnodup, hvariable, hvalue, hne⟩ :
      enter .swapped .sample 18 ⟨[(6, .entry 1), (5, .entry 0)], []⟩ {} =
        .ok ⟨[(6, .entry 1), (5, .entry 1), (6, .entry 1), (5, .entry 0)], []⟩ {} ∧
      Program.swapped.node? 18 = some (.assign [14, 15] [16, 17] false) ∧
      ((List.zip [14, 15] [16, 17]).filterMap (pairVariable? .swapped .sample)).Nodup ∧
      pairVariable? .swapped .sample (15, 17) = some 6 ∧
      Program.swapped.node? 17 = some (.ident "x" (some 5) false) ∧
      Environment.binding? ⟨[(6, .entry 1), (5, .entry 1), (6, .entry 1), (5, .entry 0)], []⟩ 6 ≠
        some (Environment.contextOf ⟨[(6, .entry 1), (5, .entry 0)], []⟩ .swapped 17) := by
    decide +kernel
  exact hne (h .swapped .sample _ _ 18 [14, 15] [16, 17] false {} {} hnode hnodup hrun (15, 17) (by simp) 6 "x" (some 5)
    false hvariable hvalue)

end Walk

end FluentChain
