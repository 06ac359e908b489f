import FluentChain.Proofs.Walk.Invariant

/-!
# Sessions

A walk can be asked for one step after another, in any order and in any environment: to visit a node, to resolve
a call, or to do a part of a visit.  A step that fails leaves what was found before it failed.  An invariant of
the walk holds after any steps (`Invariant.runs`, `Invariant.session`).
-/

namespace FluentChain.Walk

/-- The steps of a walk: visits, calls to resolve, and the parts of a visit that come before the children. -/
inductive Step
  | visit (n : NodeId)
  | resolve (call : NodeId)
  | enter (n : NodeId)
  | bind (target value : NodeId)
deriving DecidableEq, Repr

variable (p : Program) (roles : RoleTable)

/-- Does a step; the environment is the one after it. -/
def Step.run : Step → Environment → Walk Environment
  | .visit n, env => Walk.visit p roles n env
  | .resolve call, env => do
    let _ ← resolveCall p roles env call
    return env
  | .enter n, env => Walk.enter p roles n env
  | .bind target value, env => bindTarget p roles env target value

/-- The state that a step leaves, whether it succeeds or fails. -/
def stateAfter {α : Type} (m : Walk α) (s : WalkState) : WalkState :=
  match m s with
  | .ok _ t => t
  | .error _ t => t

/-- The state after some steps, each in an environment of its own. -/
def runs (steps : List (Step × Environment)) (s : WalkState) : WalkState :=
  steps.foldl (fun s step => stateAfter (step.1.run p roles step.2) s) s

/-- A new walk in the empty environment, and every state that steps lead to when they are done in environments
that the walk has given out before.  `envs` are the environments given out so far. -/
inductive Session : List Environment → WalkState → Prop
  | start : Session [{}] {}
  | done {envs env step s env' t} : Session envs s → env ∈ envs →
      Step.run p roles step env s = .ok env' t → Session (env' :: envs) t
  | failed {envs env step s e t} : Session envs s → env ∈ envs →
      Step.run p roles step env s = .error e t → Session envs t

variable {p roles}

namespace Invariant

variable {I : WalkState → Prop} {E : CheckError → WalkState → Prop} {Q : ChainContext → Prop} {env : Environment}

theorem step (h : Invariant p roles (fun _ => True) I E Q) (henv : env.All Q) (step : Step) :
    Ensures I (step.run p roles env) (fun env' t => I t ∧ env'.All Q) E := by
  cases step with
  | visit n => exact h.visit henv trivial
  | resolve call =>
    refine Ensures.bind (h.resolveCall henv trivial) fun _ => Ensures.pure ?_
    rintro t ⟨ht, -⟩
    exact ⟨ht, henv⟩
  | enter n => exact h.enter henv trivial
  | bind target value => exact h.bindTarget henv target trivial

/-- What every settled call keeps, in any environment, holds after any steps. -/
theorem runs (h : Invariant p roles (fun _ => True) I (fun _ => I) fun _ => True) (steps : List (Step × Environment))
    {s : WalkState} (hs : I s) : I (Walk.runs p roles steps s) := by
  induction steps generalizing s with
  | nil => exact hs
  | cons step steps ih =>
    have henv : step.2.All fun _ => True := fun _ _ _ => trivial
    have hstep := h.step henv step.1
    have hnext : I (stateAfter (step.1.run p roles step.2) s) := by
      unfold stateAfter
      split
      · exact (hstep.of_ok hs ‹_›).1
      · exact hstep.of_error hs ‹_›
    exact ih hnext

theorem session (h : Invariant p roles (fun _ => True) I (fun _ => I) Q) (hI : I {})
    {envs : List Environment} {s : WalkState}
    (hs : Session p roles envs s) : I s ∧ ∀ env ∈ envs, env.All Q := by
  induction hs with
  | start =>
    refine ⟨hI, ?_⟩
    intro env henv
    rw [List.mem_singleton.1 henv]
    exact Environment.all_empty
  | done _ henv hrun ih =>
    obtain ⟨ht, henv'⟩ := (h.step (ih.2 _ henv) _).of_ok ih.1 hrun
    refine ⟨ht, ?_⟩
    intro env hmem
    rcases List.mem_cons.1 hmem with rfl | hmem
    · exact henv'
    · exact ih.2 env hmem
  | failed _ henv hrun ih => exact ⟨(h.step (ih.2 _ henv) _).of_error ih.1 hrun, ih.2⟩

end Invariant

end FluentChain.Walk
