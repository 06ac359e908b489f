import FluentChain.Proofs.Walk.Evaluation

/-!
# Scopes

A visit reads of its environment only what variables are looked up as.  In environments that agree on that it finds
the same, and it leaves environments that agree.  So blocks are transparent: the statements of a block are visited
as they would be without it, and what they bind is dropped behind it (`block_transparent`).  No scope is ever needed,
however deep blocks are nested: `visitInPlace` opens none and finds the same.

Behind a visit a variable is looked up as before, unless it is the target of an assignment that the visit comes to
outside all blocks (`lookup?_of_visit`).
-/

namespace FluentChain

/-- Every variable is looked up as the same in both environments. -/
def Environment.Agrees (env env' : Environment) : Prop := ∀ obj, env.lookup? obj = env'.lookup? obj

namespace Environment.Agrees

variable {env env' : Environment}

theorem refl (env : Environment) : env.Agrees env := fun _ => rfl

theorem symm (h : env.Agrees env') : env'.Agrees env := fun obj => (h obj).symm

/-- A new scope hides nothing. -/
theorem child_left (h : env.Agrees env') : env.child.Agrees env' := h

theorem bind (h : env.Agrees env') (obj : ObjId) (ctx : ChainContext) :
    (env.bind obj ctx).Agrees (env'.bind obj ctx) := by
  intro other
  unfold Environment.lookup?
  by_cases heq : other = obj
  · rw [heq, binding?_bind_self, binding?_bind_self]
  · rw [binding?_bind_of_ne env heq, binding?_bind_of_ne env' heq]
    exact h other

end Environment.Agrees

/-! ### A program with blocks -/

/-- The dump of `x := q.From(User{}); { x = q.From(Address{}); { x.Pick("Home") } }; x.Pick("Home")`. -/
def PackageDump.scoped : PackageDump where
  files := [{
    name := "a"
    decls := [
      .assign [.ident { name := "x", obj := "x", isDef := true, pos := "1:1" }]
        [.call (.selector (.ident { name := "q", obj := "q", pos := "1:6" })
          { name := "From", obj := "(Query).From", pos := "1:8" } none) [.composite "User" [] "1:13"] false none]
        true,
      .block [
        .assign [.ident { name := "x", obj := "x", pos := "3:1" }]
          [.call (.selector (.ident { name := "q", obj := "q", pos := "3:5" })
            { name := "From", obj := "(Query).From", pos := "3:7" } none) [.composite "Address" [] "3:12"] false none]
          false,
        .block [.call (.selector (.ident { name := "x", obj := "x", pos := "4:3" })
          { name := "Pick", obj := "(Query).Pick", pos := "4:5" } none) [.literal .string "\"Home\"" "4:10"] false none]
          "4:1"] "2:1",
      .call (.selector (.ident { name := "x", obj := "x", pos := "6:1" })
        { name := "Pick", obj := "(Query).Pick", pos := "6:3" } none) [.literal .string "\"Home\"" "6:8"] false none] }]
  types := PackageDump.sample.types
  objects := PackageDump.sample.objects ++ [{ key := "x", kind := .var, type := "Query" }]

def Program.scoped : Program := (Program.ofDumps [.scoped]).toOption.getD {}

/-- What the outer block finds: in it `x` points at an address, which has no home. -/
def WalkState.scoped : WalkState where
  resolutions := [⟨18, .entry 1, .entry 1⟩, ⟨12, .untracked, .entry 1⟩]
  diagnostics := {
    checked := [17]
    found := [(17, ⟨.fieldNotFound, ⟨0, 4, 10⟩, some ⟨0, 2, 6⟩⟩)] }

/-- The outer block is node 20, and the assignment in it is node 13. -/
theorem Walk.visit_scoped :
    Program.scoped.node? 20 = some (.block [13, 19]) ∧
    visit .scoped .sample 20 (.bind {} 5 (.entry 0)) {} = .ok (.bind {} 5 (.entry 0)) .scoped ∧
    visit .scoped .sample 13 (.bind {} 5 (.entry 0)) {} =
      .ok ⟨[(5, .entry 1), (5, .entry 0)], []⟩ ⟨[⟨12, .untracked, .entry 1⟩], {}⟩ := by
  decide +kernel

namespace Walk

/-! ### Steps that do the same -/

section

variable {α β α' β' γ : Type} {R : α → β → Prop} {S : α' → β' → Prop}

/-- Two runs end in the same state: both with results, which `R` relates, or both with the same error. -/
inductive EndAlike (R : α → β → Prop) :
    EStateM.Result CheckError WalkState α → EStateM.Result CheckError WalkState β → Prop
  | ok {a : α} {b : β} {s : WalkState} (h : R a b) : EndAlike R (.ok a s) (.ok b s)
  | error {e : CheckError} {s : WalkState} : EndAlike R (.error e s) (.error e s)

/-- From whatever state, the two steps end alike. -/
def Alike (R : α → β → Prop) (m : Walk α) (m' : Walk β) : Prop := ∀ s, EndAlike R (m s) (m' s)

namespace Alike

variable {m : Walk α} {m' : Walk β}

theorem pure {a : α} {b : β} (h : R a b) : Alike R (Pure.pure a) (Pure.pure b) := fun _ => .ok h

theorem refl (m : Walk α) : Alike Eq m m := by
  intro s
  cases m s with
  | ok a t => exact .ok rfl
  | error e t => exact .error

theorem bind {f : α → Walk α'} {g : β → Walk β'} (h : Alike R m m') (hfg : ∀ a b, R a b → Alike S (f a) (g b)) :
    Alike S (m >>= f) (m' >>= g) := by
  intro s
  have hs := h s
  cases hm : m s <;> cases hm' : m' s <;> rw [hm, hm'] at hs
  · rw [bind_of_ok hm, bind_of_ok hm']
    cases hs with
    | ok hab => exact hfg _ _ hab _
  · cases hs
  · cases hs
  · rw [bind_of_error hm, bind_of_error hm']
    cases hs
    exact .error

theorem foldlM {f : α → γ → Walk α} {g : β → γ → Walk β} {l : List γ}
    (h : ∀ a b, ∀ c ∈ l, R a b → Alike R (f a c) (g b c)) {a : α} {b : β} (hab : R a b) :
    Alike R (l.foldlM f a) (l.foldlM g b) := by
  induction l generalizing a b with
  | nil => exact pure hab
  | cons c l ih =>
    rw [List.foldlM_cons, List.foldlM_cons]
    exact bind (h a b c (by simp) hab) fun a b hab => ih (fun a b d hd => h a b d (by simp [hd])) hab

/-- Steps that do the same as a third do the same as each other. -/
theorem join {Q : α → α' → Prop} {k : Walk α'} {T : β → α' → Prop} (h : Alike Q m k) (h' : Alike T m' k)
    (hR : ∀ a b c, Q a c → T b c → R a b) : Alike R m m' := by
  intro s
  have hs := h s
  have hs' := h' s
  revert hs hs'
  generalize m s = x, m' s = y, k s = z
  rintro (hQ | _) (hT | _)
  · exact .ok (hR _ _ _ hQ hT)
  · exact .error

theorem eq {m m' : Walk α} (h : Alike Eq m m') : m = m' := by
  funext s
  have hs := h s
  revert hs
  generalize m s = x, m' s = y
  rintro (hab | _)
  · rw [hab]
  · rfl

end Alike

end

variable (p : Program) (roles : RoleTable)

/-! ### Visits without scopes -/

/-- What happens at a node before its children are visited, where blocks open no scope. -/
def enterInPlace (n : NodeId) (env : Environment) : Walk Environment :=
  if isBlock p n then return env else enter p roles n env

/-- Visits a node and all below it as `visit` does, but blocks open no scope: the environment that holds before a
block is the one that its statements are visited in, and the one that holds after it. -/
def visitInPlace (n : NodeId) (env : Environment) : Walk Environment := do
  let inner ← enterInPlace p roles n env
  let after ← (p.subnodes n).foldlM (fun env ⟨c, _⟩ => visitInPlace c env) inner
  return if isBlock p n then env else after
termination_by n

variable {p roles} {env env' : Environment} {n : NodeId}

theorem alike_bindTarget (h : env.Agrees env') (pair : NodeId × NodeId) :
    Alike Environment.Agrees (bindTarget p roles env pair.1 pair.2) (bindTarget p roles env' pair.1 pair.2) := by
  cases hvariable : pairVariable? p roles pair with
  | none =>
    rw [bindTarget_of_none env hvariable, bindTarget_of_none env' hvariable]
    exact Alike.pure h
  | some obj =>
    rw [bindTarget_of_some env hvariable, bindTarget_of_some env' hvariable, valueContext_congr fun obj _ => h obj]
    refine (Alike.refl _).bind ?_
    rintro ctx _ rfl
    exact Alike.pure (h.bind obj ctx)

theorem enter_of_isBlock (h : isBlock p n = true) (env : Environment) : enter p roles n env = pure env.child := by
  unfold isBlock at h
  split at h
  · rename_i hnode
    unfold enter
    rw [hnode]
  · cases h

theorem alike_enter (h : env.Agrees env') (n : NodeId) :
    Alike Environment.Agrees (enter p roles n env) (enter p roles n env') := by
  unfold enter
  split
  · exact Alike.pure h
  · exact Alike.foldlM (fun _ _ pair _ h => alike_bindTarget h pair) h
  · exact Alike.foldlM (fun _ _ pair _ h => alike_bindTarget h pair) h
  · rw [resolveCall_congr fun obj _ => h obj]
    exact (Alike.refl _).bind fun _ _ _ => Alike.pure h
  · exact Alike.pure h

theorem alike_enterInPlace (h : env.Agrees env') (n : NodeId) :
    Alike Environment.Agrees (enter p roles n env) (enterInPlace p roles n env') := by
  unfold enterInPlace
  split
  · rw [enter_of_isBlock ‹_›]
    exact Alike.pure h.child_left
  · exact alike_enter h n

theorem alike_visitInPlace (h : env.Agrees env') (n : NodeId) :
    Alike Environment.Agrees (visit p roles n env) (visitInPlace p roles n env') := by
  induction n using Nat.strongRecOn generalizing env env' with
  | ind n ih =>
    rw [visit, visitInPlace]
    refine (alike_enterInPlace h n).bind fun inner inner' hinner => ?_
    have hchildren := Alike.foldlM (R := Environment.Agrees) (l := p.subnodes n)
      (f := fun env c => visit p roles c.1 env) (g := fun env c => visitInPlace p roles c.1 env)
      (fun env env' c _ h => ih c.1 c.2 h) hinner
    refine hchildren.bind fun after after' hafter => ?_
    split
    · exact Alike.pure h
    · exact Alike.pure hafter

theorem alike_visit (h : env.Agrees env') (n : NodeId) :
    Alike Environment.Agrees (visit p roles n env) (visit p roles n env') :=
  (alike_visitInPlace (.refl env) n).join (alike_visitInPlace h.symm n) fun _ _ _ hac hbc obj =>
    (hac obj).trans (hbc obj).symm

/-- The statements of a block are visited as they would be without it, and nothing that they bind is left. -/
theorem visit_block {stmts : List NodeId} (hn : p.node? n = some (.block stmts)) (hordered : ∀ c ∈ stmts, c < n)
    (env : Environment) : visit p roles n env = do
      let _ ← stmts.foldlM (fun env c => visit p roles c env) env
      return env := by
  have hblock : isBlock p n = true := by
    unfold isBlock
    rw [hn]
  have hchildren : p.children n = stmts := by
    unfold Program.children
    rw [hn]
    rfl
  have hsubnodes : (p.subnodes n).map (·.val) = stmts := by
    rw [Program.subnodes_map_val (by rwa [hchildren]), hchildren]
  rw [visit, enter_of_isBlock hblock, pure_bind, ← hsubnodes, List.foldlM_map]
  have hstmts : Alike Environment.Agrees ((p.subnodes n).foldlM (fun env c => visit p roles c.1 env) env.child)
      ((p.subnodes n).foldlM (fun env c => visit p roles c.1 env) env) :=
    Alike.foldlM (fun _ _ c _ h => alike_visit h c.1) (Environment.Agrees.refl env).child_left
  refine (hstmts.bind fun after after' _ => ?_).eq
  rw [if_pos hblock]
  exact Alike.refl _

/-- What a visit finds, and why it fails, depends on the environment only through what variables are looked up as; so
the statements of a block, which were made before it, are visited as they would be one after another without it, and
its environment is left as it was; and at any nesting of blocks a visit finds the same as one that opens no scope. -/
theorem block_transparent (p : Program) (roles : RoleTable) (n : NodeId) :
    (∀ env env' : Environment, env.Agrees env' →
      Alike Environment.Agrees (visit p roles n env) (visit p roles n env')) ∧
    (∀ stmts, p.node? n = some (.block stmts) → (∀ c ∈ stmts, c < n) → ∀ env, visit p roles n env = do
      let _ ← stmts.foldlM (fun env c => visit p roles c env) env
      return env) ∧
    ∀ env env' : Environment, env.Agrees env' →
      Alike Environment.Agrees (visit p roles n env) (visitInPlace p roles n env') :=
  ⟨fun _ _ h => alike_visit h n, fun _ hn hordered env => visit_block hn hordered env,
    fun _ _ h => alike_visitInPlace h n⟩

/-- With blocks two deep the statements find the same where they stand, in a scope of their own or in none. -/
theorem block_transparent_nested :
    visit .scoped .sample 20 (.bind {} 5 (.entry 0)) {} = .ok (.bind {} 5 (.entry 0)) .scoped ∧
    (do let _ ← [13, 19].foldlM (fun env c => visit .scoped .sample c env) (.bind {} 5 (.entry 0))
        return Environment.bind {} 5 (.entry 0)) {} = .ok (.bind {} 5 (.entry 0)) .scoped ∧
    (∃ env, visit .scoped .sample 20 (Environment.bind {} 5 (.entry 0)).child {} = .ok env .scoped) ∧
    ∃ env, visitInPlace .scoped .sample 20 (.bind {} 5 (.entry 0)) {} = .ok env .scoped := by
  obtain ⟨hnode, hrun, -⟩ := visit_scoped
  obtain ⟨hagrees, hblock, hinplace⟩ := block_transparent .scoped .sample 20
  have hend : ∀ {m : Walk Environment}, Alike Environment.Agrees (visit .scoped .sample 20 (.bind {} 5 (.entry 0))) m →
      ∃ env, m {} = .ok env .scoped := by
    intro m hm
    have hs := hm {}
    rw [hrun] at hs
    revert hs
    generalize m {} = x
    rintro (_ | _)
    exact ⟨_, rfl⟩
  refine ⟨hrun, ?_, hend (hagrees _ _ fun _ => rfl), hend (hinplace _ _ (.refl _))⟩
  rw [← hblock _ hnode (by decide)]
  exact hrun

/-! ### Variables that stay as they are -/

/-- The visit to `n` comes to `m` without entering a block. -/
def OutsideBlocks (p : Program) : NodeId → NodeId → Prop :=
  Relation.ReflTransGen fun n c => isBlock p n = false ∧ c ∈ p.children n

theorem exists_assignment_of_assigns {obj : ObjId} (h : Assigns p roles obj n) :
    ∃ m targets values pair, OutsideBlocks p n m ∧ p.assignment? m = some (targets, values) ∧
      pair ∈ targets.zip values ∧ pairVariable? p roles pair = some obj := by
  induction h with
  | here hn hpair hobj => exact ⟨_, _, _, _, .refl, hn, hpair, hobj⟩
  | child hblock hc _ ih =>
    obtain ⟨m, targets, values, pair, hm, hassignment, hpair, hobj⟩ := ih
    exact ⟨m, targets, values, pair, .head ⟨hblock, hc⟩ hm, hassignment, hpair, hobj⟩

theorem pairVariable?_eq_some {pair : NodeId × NodeId} {obj : ObjId} (h : pairVariable? p roles pair = some obj) :
    p.identObject? pair.1 = some obj ∧ p.objectType? obj = some roles.builder ∧
      ∀ sig, p.calleeSignature? pair.2 = some sig → sig.results.length = 1 := by
  unfold pairVariable? at h
  obtain ⟨hsingle, hvariable⟩ := Option.ite_none_left_eq_some.1 h
  obtain ⟨hobj, htype⟩ := Option.filter_eq_some_iff.1 hvariable
  refine ⟨hobj, eq_of_beq htype, fun sig hsig => ?_⟩
  have hcall : p.isCall pair.2 = true := by
    unfold Program.calleeSignature? at hsig
    split at hsig
    · rename_i hnode
      simp [Program.isCall, hnode]
    · cases hsig
  simpa [isMultiResult, hcall, hsig] using hsingle

theorem eq_of_visit_block {s t : WalkState} (h : isBlock p n = true) (hrun : visit p roles n env s = .ok env' t) :
    env' = env := by
  rw [visit] at hrun
  obtain ⟨inner, u, -, hrest⟩ := bind_eq_ok.1 hrun
  obtain ⟨after, v, -, hreturn⟩ := bind_eq_ok.1 hrest
  cases hreturn
  rw [if_pos h]

/-- After a visit every variable is looked up as before, unless it is a builder that some assignment, met outside all
blocks, pairs with a value other than a call that is known not to have one result.  A block leaves its environment
as it was. -/
theorem lookup?_of_visit {s t : WalkState} (hrun : visit p roles n env s = .ok env' t) :
    (∀ obj, env'.lookup? obj = env.lookup? obj ∨
      ∃ m targets values target value, OutsideBlocks p n m ∧ p.assignment? m = some (targets, values) ∧
        (target, value) ∈ targets.zip values ∧ p.identObject? target = some obj ∧
        p.objectType? obj = some roles.builder ∧
        ∀ sig, p.calleeSignature? value = some sig → sig.results.length = 1) ∧
    (isBlock p n = true → env' = env) := by
  refine ⟨fun obj => ?_, fun hblock => eq_of_visit_block hblock hrun⟩
  by_cases h : Assigns p roles obj n
  · obtain ⟨m, targets, values, ⟨target, value⟩, hm, hassignment, hpair, hvariable⟩ := exists_assignment_of_assigns h
    exact Or.inr ⟨m, targets, values, target, value, hm, hassignment, hpair, pairVariable?_eq_some hvariable⟩
  · left
    unfold Environment.lookup?
    rw [(returns_visit h env).of_ok trivial hrun]

/-- The variable that has changed is the target of the assignment. -/
theorem lookup?_of_visit_rebound :
    visit .scoped .sample 13 (.bind {} 5 (.entry 0)) {} =
      .ok ⟨[(5, .entry 1), (5, .entry 0)], []⟩ ⟨[⟨12, .untracked, .entry 1⟩], {}⟩ ∧
    ∃ m targets values target value, OutsideBlocks .scoped 13 m ∧
      Program.scoped.assignment? m = some (targets, values) ∧ (target, value) ∈ targets.zip values ∧
      Program.scoped.identObject? target = some 5 ∧ Program.scoped.objectType? 5 = some RoleTable.sample.builder ∧
      ∀ sig, Program.scoped.calleeSignature? value = some sig → sig.results.length = 1 := by
  obtain ⟨-, -, hrun⟩ := visit_scoped
  refine ⟨hrun, ((lookup?_of_visit hrun).1 5).resolve_left ?_⟩
  decide

end Walk

end FluentChain
