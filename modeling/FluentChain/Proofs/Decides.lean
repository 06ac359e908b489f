import FluentChain.Proofs.Ensures

/-!
# When a step succeeds

`Decides P m good Q` tells exactly when a step that starts in a state with `P` succeeds: where `good` holds, which
speaks of what the step is given and not of the state.  Steps put together succeed where all of them do, so the
conditions of a long run add up to one condition on its input.
-/

namespace FluentChain

variable {ε σ α β ι : Type}

/-- From any state with `P`, the step `m` succeeds exactly if `good` holds, and then it ends with `Q`. -/
def Decides (P : σ → Prop) (m : EStateM ε σ α) (good : Prop) (Q : α → σ → Prop) : Prop :=
  Ensures P m (fun a t => good ∧ Q a t) fun _ _ => ¬ good

namespace Decides

variable {P P' : σ → Prop} {Q Q' : α → σ → Prop} {good good' : Prop} {m : EStateM ε σ α}

theorem of_ok (h : Decides P m good Q) {s t : σ} {a : α} (hs : P s) (hm : m s = .ok a t) : good ∧ Q a t :=
  Ensures.of_ok h hs hm

theorem exists_ok (h : Decides P m good Q) {s : σ} (hs : P s) (hgood : good) : ∃ a t, m s = .ok a t ∧ Q a t := by
  cases hm : m s with
  | ok a t => exact ⟨a, t, rfl, (h.of_ok hs hm).2⟩
  | error e t => exact absurd hgood (Ensures.of_error h hs hm)

theorem weaken (h : Decides P m good Q) (hP : ∀ s, P' s → P s) (hQ : ∀ a t, Q a t → Q' a t) :
    Decides P' m good Q' :=
  Ensures.weaken h hP (fun a t ht => ⟨ht.1, hQ a t ht.2⟩) fun _ _ h => h

theorem congr (h : Decides P m good Q) (hgood : good ↔ good') : Decides P m good' Q :=
  Ensures.weaken h (fun _ hs => hs) (fun _ _ ht => ⟨hgood.1 ht.1, ht.2⟩) fun _ _ he => mt hgood.2 he

/-- It is enough to look at one state. -/
theorem of_forall (h : ∀ s, P s → Decides (fun t => t = s) m good Q) : Decides P m good Q :=
  fun s hs => h s hs s rfl

theorem pure {a : α} (h : ∀ s, P s → Q a s) : Decides P (Pure.pure a : EStateM ε σ α) True Q :=
  Ensures.pure fun s hs => ⟨trivial, h s hs⟩

theorem throw {e : ε} : Decides P (MonadExcept.throw e : EStateM ε σ α) False Q :=
  Ensures.throw fun _ _ => not_false

theorem modifyGet {f : σ → α × σ} (h : ∀ s, P s → Q (f s).1 (f s).2) :
    Decides P (MonadState.modifyGet f : EStateM ε σ α) True Q :=
  Ensures.modifyGet fun s hs => ⟨trivial, h s hs⟩

theorem bind {Q : β → σ → Prop} {R : α → σ → Prop} {f : α → EStateM ε σ β} (hm : Decides P m good R)
    (hf : good → ∀ a, Decides (R a) (f a) good' Q) : Decides P (m >>= f) (good ∧ good') Q := by
  refine Ensures.bind (R := fun a t => good ∧ R a t) ?_ fun a => ?_
  · exact Ensures.weaken hm (fun _ hs => hs) (fun _ _ ht => ht) fun _ _ he => mt And.left he
  · refine Ensures.intro ?_ ?_
    · rintro s b t ⟨hgood, hs⟩ hrun
      obtain ⟨hgood', ht⟩ := (hf hgood a).of_ok hs hrun
      exact ⟨⟨hgood, hgood'⟩, ht⟩
    · rintro s e t ⟨hgood, hs⟩ hrun
      exact mt And.right (Ensures.of_error (hf hgood a) hs hrun)

/-- A step before the last that always succeeds. -/
theorem total_bind {Q : β → σ → Prop} {R : α → σ → Prop} {f : α → EStateM ε σ β} (hm : Decides P m True R)
    (hf : ∀ a, Decides (R a) (f a) good Q) : Decides P (m >>= f) good Q :=
  (bind hm fun _ a => hf a).congr (iff_of_eq (true_and good))

/-- A last step that always succeeds. -/
theorem bind_total {Q : β → σ → Prop} {R : α → σ → Prop} {f : α → EStateM ε σ β} (hm : Decides P m good R)
    (hf : good → ∀ a, Decides (R a) (f a) True Q) : Decides P (m >>= f) good Q :=
  (bind hm hf).congr (iff_of_eq (and_true good))

theorem map {Q : β → σ → Prop} {f : α → β} (hm : Decides P m good fun a t => Q (f a) t) :
    Decides P (f <$> m) good Q := by
  rw [map_eq_pure_bind]
  exact bind_total hm fun _ a => pure fun _ hs => hs

/-- A loop over `l`, each element of which contributes some items.  What is asked of the items of one round may
depend on those before. -/
theorem forM {ok : List ι → Prop} {J : List ι → σ → Prop} {g : α → List ι} {f : α → EStateM ε σ PUnit} {l : List α}
    (hok : ∀ before after, ok (before ++ after) → ok before)
    (h : ∀ before, ∀ a ∈ l, ok before → Decides (J before) (f a) (ok (before ++ g a)) fun _ => J (before ++ g a))
    {before : List ι} (hbefore : ok before) :
    Decides (J before) (l.forM f) (ok (before ++ l.flatMap g)) fun _ => J (before ++ l.flatMap g) := by
  induction l generalizing before with
  | nil =>
    rw [List.flatMap_nil, List.append_nil]
    have hnil : Decides (J before) ([].forM f) True fun _ => J before := pure fun _ hs => hs
    exact hnil.congr (iff_of_true trivial hbefore)
  | cons a l ih =>
    rw [List.flatMap_cons, ← List.append_assoc]
    refine (bind (h before a (by simp) hbefore) fun hround _ => ?_).congr (and_iff_right_of_imp (hok _ _))
    exact ih (fun before' b hb => h before' b (by simp [hb])) hround

/-- A loop over `l`, where what is asked of an element does not depend on those before. -/
theorem forM_each {ok : α → Prop} {J : List α → σ → Prop} {f : α → EStateM ε σ PUnit} {l : List α}
    (h : ∀ before, ∀ a ∈ l, Decides (J before) (f a) (ok a) fun _ => J (before ++ [a])) (before : List α) :
    Decides (J before) (l.forM f) (∀ a ∈ l, ok a) fun _ => J (before ++ l) := by
  induction l generalizing before with
  | nil =>
    rw [List.append_nil]
    have hnil : Decides (J before) ([].forM f) True fun _ => J before := pure fun _ hs => hs
    exact hnil.congr (iff_of_true trivial (by simp))
  | cons a l ih =>
    rw [List.append_cons]
    refine (bind (h before a (by simp)) fun _ _ => ?_).congr List.forall_mem_cons.symm
    exact ih (fun before' b hb => h before' b (by simp [hb])) (before ++ [a])

end Decides

end FluentChain
