import Mathlib.Data.List.Forall2
import FluentChain.Proofs.Ensures

/-!
# Related values and related runs

Two runs of one program whose data differ in what does not matter are compared value by value.  This file has
what is needed for that beyond `List.Forall₂`: relations between values that may be missing, between results
(`EndTogether`) and between the outcomes of steps (`RunTogether`).  Steps on two forms of one state, such as a list
and the same list with an index, are compared by `Mirrors`.
-/

namespace FluentChain

/-! ### Values that may be missing -/

section

variable {α β α' β' : Type} {R : α → β → Prop} {S : α' → β' → Prop} {a : Option α} {b : Option β}

theorem rel_imp {R' : α → β → Prop} (h : Option.Rel R a b) (himp : ∀ a b, R a b → R' a b) : Option.Rel R' a b := by
  cases h with
  | none => exact .none
  | some h => exact .some (himp _ _ h)

/-- Of two values the first that is there counts. -/
theorem rel_or {a' : Option α} {b' : Option β} (h : Option.Rel R a b) (h' : Option.Rel R a' b') :
    Option.Rel R (a.or a') (b.or b') := by
  cases h with
  | none => simpa using h'
  | some h => simpa using Option.Rel.some h

theorem rel_bind {f : α → Option α'} {g : β → Option β'} (h : Option.Rel R a b)
    (hfg : ∀ a b, R a b → Option.Rel S (f a) (g b)) : Option.Rel S (a.bind f) (b.bind g) := by
  cases h with
  | none => exact .none
  | some h => exact hfg _ _ h

theorem rel_map {f : α → α'} {g : β → β'} (h : Option.Rel R a b) (hfg : ∀ a b, R a b → S (f a) (g b)) :
    Option.Rel S (a.map f) (b.map g) := by
  cases h with
  | none => exact .none
  | some h => exact .some (hfg _ _ h)

theorem rel_filter {p : α → Bool} {q : β → Bool} (h : Option.Rel R a b) (hpq : ∀ a b, R a b → p a = q b) :
    Option.Rel R (a.filter p) (b.filter q) := by
  cases h with
  | none => exact .none
  | some h =>
    rw [Option.filter_some, Option.filter_some, hpq _ _ h]
    split
    · exact .some h
    · exact .none

/-- Values that are related to one value are related to each other. -/
theorem rel_join {γ : Type} {A : γ → α → Prop} {B : γ → β → Prop} {c : Option γ} (ha : Option.Rel A c a)
    (hb : Option.Rel B c b) (h : ∀ c a b, A c a → B c b → R a b) : Option.Rel R a b := by
  cases ha with
  | none =>
    cases hb with
    | none => exact .none
  | some ha =>
    cases hb with
    | some hb => exact .some (h _ _ _ ha hb)

theorem rel_getD {c : α} {d : β} (h : Option.Rel R a b) (hcd : R c d) : R (a.getD c) (b.getD d) := by
  cases h with
  | none => exact hcd
  | some h => exact h

theorem eq_of_rel {a b : Option α} (h : Option.Rel Eq a b) : a = b := by
  cases h with
  | none => rfl
  | some h => rw [h]

theorem isSome_eq_of_rel (h : Option.Rel R a b) : b.isSome = a.isSome := by
  cases h <;> rfl

/-- Related values are compared with a pair of values alike, if their relation knows what is equal. -/
theorem eq_some_iff_of_rel {c : α} {d : β} (h : Option.Rel R a b) (hcd : ∀ a b, R a b → (a = c ↔ b = d)) :
    a = some c ↔ b = some d := by
  cases h with
  | none => simp
  | some h => simpa using hcd _ _ h

theorem map_eq_of_rel {γ : Type} {f : α → γ} {g : β → γ} (h : Option.Rel R a b) (hfg : ∀ a b, R a b → g b = f a) :
    b.map g = a.map f := by
  cases h with
  | none => rfl
  | some h => exact congrArg some (hfg _ _ h)

end

/-! ### Lists -/

section

variable {α β α' β' : Type} {R : α → β → Prop} {S : α' → β' → Prop} {as : List α} {bs : List β}

theorem map_eq_of_forall₂ {γ : Type} {f : α → γ} {g : β → γ} (h : List.Forall₂ R as bs)
    (hfg : ∀ a b, R a b → g b = f a) : bs.map g = as.map f := by
  induction h with
  | nil => rfl
  | cons hab _ ih => rw [List.map_cons, List.map_cons, ih, hfg _ _ hab]

theorem exists_of_mem_right (h : List.Forall₂ R as bs) {b : β} (hb : b ∈ bs) : ∃ a ∈ as, R a b := by
  induction h with
  | nil => exact absurd hb List.not_mem_nil
  | cons hab _ ih =>
    rcases List.mem_cons.1 hb with rfl | hb
    · exact ⟨_, List.mem_cons_self, hab⟩
    · obtain ⟨a, ha, hab⟩ := ih hb
      exact ⟨a, List.mem_cons_of_mem _ ha, hab⟩

theorem forall₂_join {γ : Type} {A : γ → α → Prop} {B : γ → β → Prop} {cs : List γ} (ha : List.Forall₂ A cs as)
    (hb : List.Forall₂ B cs bs) (h : ∀ c a b, A c a → B c b → R a b) : List.Forall₂ R as bs := by
  induction ha generalizing bs with
  | nil =>
    cases hb with
    | nil => exact .nil
  | cons ha _ ih =>
    cases hb with
    | cons hb hbs => exact .cons (h _ _ _ ha hb) (ih hbs)

theorem rel_getElem? (h : List.Forall₂ R as bs) (n : Nat) : Option.Rel R as[n]? bs[n]? := by
  induction h generalizing n with
  | nil => exact .none
  | cons hab _ ih =>
    cases n with
    | zero => exact .some hab
    | succ n => exact ih n

theorem rel_head? (h : List.Forall₂ R as bs) : Option.Rel R as.head? bs.head? := by
  cases h with
  | nil => exact .none
  | cons hab _ => exact .some hab

theorem rel_getLast? (h : List.Forall₂ R as bs) : Option.Rel R as.getLast? bs.getLast? := by
  rw [← List.head?_reverse, ← List.head?_reverse]
  exact rel_head? (List.forall₂_reverse_iff.2 h)

theorem rel_find? {p : α → Bool} {q : β → Bool} (h : List.Forall₂ R as bs) (hpq : ∀ a b, R a b → p a = q b) :
    Option.Rel R (as.find? p) (bs.find? q) := by
  induction h with
  | nil => exact .none
  | cons hab _ ih =>
    rw [List.find?_cons, List.find?_cons, hpq _ _ hab]
    split
    · exact .some hab
    · exact ih

theorem rel_findSome? {f : α → Option α'} {g : β → Option β'} (h : List.Forall₂ R as bs)
    (hfg : ∀ a b, R a b → Option.Rel S (f a) (g b)) : Option.Rel S (as.findSome? f) (bs.findSome? g) := by
  induction h with
  | nil => exact .none
  | cons hab _ ih =>
    have h := hfg _ _ hab
    rw [List.findSome?_cons, List.findSome?_cons]
    revert h
    cases f _ <;> cases g _ <;> rintro (h | h)
    · exact ih
    · exact .some h

theorem rel_filter_list {p : α → Bool} {q : β → Bool} (h : List.Forall₂ R as bs) (hpq : ∀ a b, R a b → p a = q b) :
    List.Forall₂ R (as.filter p) (bs.filter q) := by
  induction h with
  | nil => exact .nil
  | cons hab _ ih =>
    rw [List.filter_cons, List.filter_cons, hpq _ _ hab]
    split
    · exact .cons hab ih
    · exact ih

theorem rel_map_list {f : α → α'} {g : β → β'} (h : List.Forall₂ R as bs) (hfg : ∀ a b, R a b → S (f a) (g b)) :
    List.Forall₂ S (as.map f) (bs.map g) :=
  List.forall₂_map_left_iff.2 (List.forall₂_map_right_iff.2 (h.imp hfg))

theorem rel_append {as' : List α} {bs' : List β} (h : List.Forall₂ R as bs) (h' : List.Forall₂ R as' bs') :
    List.Forall₂ R (as ++ as') (bs ++ bs') := List.rel_append h h'

/-- Related keys find related values. -/
theorem rel_lookup {α β α' β' : Type} [BEq α] [BEq β] {K : α → β → Prop} {V : α' → β' → Prop} {as : List (α × α')}
    {bs : List (β × β')} (h : List.Forall₂ (fun x y => K x.1 y.1 ∧ V x.2 y.2) as bs) {a : α} {b : β}
    (hK : ∀ c d, K c d → (a == c) = (b == d)) : Option.Rel V (as.lookup a) (bs.lookup b) := by
  induction h with
  | nil => exact .none
  | cons hxy _ ih =>
    rw [List.lookup_cons, List.lookup_cons, hK _ _ hxy.1]
    split
    · exact .some hxy.2
    · exact ih

theorem rel_zip {γ : Type} (h : List.Forall₂ R as bs) (cs : List γ) :
    List.Forall₂ (fun x y => R x.1 y.1 ∧ x.2 = y.2) (as.zip cs) (bs.zip cs) := by
  induction h generalizing cs with
  | nil => exact .nil
  | cons hab _ ih =>
    cases cs with
    | nil => exact .nil
    | cons c cs => exact .cons ⟨hab, rfl⟩ (ih cs)

end

/-! ### Results -/

section

variable {ε α β : Type} {x : Except ε α}

theorem except_bind_eq_ok {f : α → Except ε β} {b : β} : x >>= f = .ok b ↔ ∃ a, x = .ok a ∧ f a = .ok b := by
  cases x with
  | ok a => simp [bind, Except.bind]
  | error e => simp [bind, Except.bind]

/-- A list of results is made of one result for each element. -/
theorem except_mapM_eq_ok {f : α → Except ε β} {as : List α} {bs : List β} :
    as.mapM f = .ok bs ↔ List.Forall₂ (fun a b => f a = .ok b) as bs := by
  induction as generalizing bs with
  | nil =>
    rw [List.mapM_nil, List.forall₂_nil_left_iff]
    exact ⟨fun h => (Except.ok.inj h).symm, fun h => h ▸ rfl⟩
  | cons a as ih =>
    rw [List.mapM_cons, List.forall₂_cons_left_iff]
    simp only [except_bind_eq_ok, ih]
    constructor
    · rintro ⟨b, hb, bs, hbs, h⟩
      cases h
      exact ⟨b, bs, hb, hbs, rfl⟩
    · rintro ⟨b, bs, hb, hbs, rfl⟩
      exact ⟨b, hb, bs, hbs, rfl⟩

end

section

variable {ε δ α β α' β' : Type} {R : α → β → Prop} {S : α' → β' → Prop} {E : ε → δ → Prop}

/-- Two results are both values, which `R` relates, or both errors, which `E` relates. -/
inductive EndTogether (R : α → β → Prop) (E : ε → δ → Prop) : Except ε α → Except δ β → Prop
  | ok {a : α} {b : β} (h : R a b) : EndTogether R E (.ok a) (.ok b)
  | error {e : ε} {d : δ} (h : E e d) : EndTogether R E (.error e) (.error d)

namespace EndTogether

theorem bind {x : Except ε α} {y : Except δ β} {f : α → Except ε α'} {g : β → Except δ β'} (h : EndTogether R E x y)
    (hfg : ∀ a b, R a b → EndTogether S E (f a) (g b)) : EndTogether S E (x >>= f) (y >>= g) := by
  cases h with
  | ok h => exact hfg _ _ h
  | error h => exact .error h

theorem mapError {ε' δ' : Type} {E' : ε' → δ' → Prop} {x : Except ε α} {y : Except δ β} {f : ε → ε'} {g : δ → δ'}
    (h : EndTogether R E x y) (hfg : ∀ e d, E e d → E' (f e) (g d)) :
    EndTogether R E' (x.mapError f) (y.mapError g) := by
  cases h with
  | ok h => exact .ok h
  | error h => exact .error (hfg _ _ h)

theorem foldlM {f : α' → α → Except ε α'} {g : β' → β → Except δ β'} {as : List α} {bs : List β}
    (h : List.Forall₂ R as bs) (hfg : ∀ c d a b, S c d → R a b → EndTogether S E (f c a) (g d b)) {c : α'} {d : β'}
    (hcd : S c d) : EndTogether S E (as.foldlM f c) (bs.foldlM g d) := by
  induction h generalizing c d with
  | nil => exact .ok hcd
  | cons hab _ ih =>
    rw [List.foldlM_cons, List.foldlM_cons]
    exact (hfg _ _ _ _ hcd hab).bind fun c d hcd => ih hcd

theorem mapM {f : α → Except ε α'} {g : β → Except δ β'} {as : List α} {bs : List β} (h : List.Forall₂ R as bs)
    (hfg : ∀ a b, R a b → EndTogether S E (f a) (g b)) :
    EndTogether (List.Forall₂ S) E (as.mapM f) (bs.mapM g) := by
  induction h with
  | nil => exact .ok .nil
  | cons hab _ ih =>
    rw [List.mapM_cons, List.mapM_cons]
    exact (hfg _ _ hab).bind fun c d hcd => ih.bind fun cs ds hcds => .ok (.cons hcd hcds)

end EndTogether

end

/-! ### Steps -/

section

variable {ε δ σ τ α β α' β' : Type} {Q : α → β → σ → τ → Prop}

/-- Two runs both succeed, and `Q` relates their results and states, or both fail. -/
inductive RunTogether (Q : α → β → σ → τ → Prop) : EStateM.Result ε σ α → EStateM.Result δ τ β → Prop
  | ok {a : α} {b : β} {s : σ} {t : τ} (h : Q a b s t) : RunTogether Q (.ok a s) (.ok b t)
  | error {e : ε} {d : δ} {s : σ} {t : τ} : RunTogether Q (.error e s) (.error d t)

namespace RunTogether

theorem imp {Q' : α → β → σ → τ → Prop} {x : EStateM.Result ε σ α} {y : EStateM.Result δ τ β} (h : RunTogether Q x y)
    (hQ : ∀ a b s t, Q a b s t → Q' a b s t) : RunTogether Q' x y := by
  cases h with
  | ok h => exact .ok (hQ _ _ _ _ h)
  | error => exact .error

theorem bind {Q' : α' → β' → σ → τ → Prop} {m : EStateM ε σ α} {m' : EStateM δ τ β} {f : α → EStateM ε σ α'}
    {g : β → EStateM δ τ β'} {s : σ} {t : τ} (h : RunTogether Q (m s) (m' t))
    (hfg : ∀ a b s t, Q a b s t → RunTogether Q' (f a s) (g b t)) :
    RunTogether Q' ((m >>= f) s) ((m' >>= g) t) := by
  cases hm : m s <;> cases hm' : m' t <;> rw [hm, hm'] at h
  · rw [bind_of_ok hm, bind_of_ok hm']
    cases h with
    | ok h => exact hfg _ _ _ _ h
  · cases h
  · cases h
  · rw [bind_of_error hm, bind_of_error hm']
    exact .error

end RunTogether

end

/-! ### Two forms of a state -/

section

variable {ε σ τ α β : Type} {view : σ → τ} {I : σ → Prop}

/-- A run ends with the same result or the same error as a run on another form of its state, with a state that
satisfies `I` and that `view` turns into the state of the other run. -/
inductive EndsAs (view : σ → τ) (I : σ → Prop) : EStateM.Result ε σ α → EStateM.Result ε τ α → Prop
  | ok {a : α} {s : σ} {t : τ} (hs : I s) (ht : view s = t) : EndsAs view I (.ok a s) (.ok a t)
  | error {e : ε} {s : σ} {t : τ} (hs : I s) (ht : view s = t) : EndsAs view I (.error e s) (.error e t)

/-- In every state that satisfies `I`, the step `m` does what `m'` does to the other form of the state. -/
def Mirrors (view : σ → τ) (I : σ → Prop) (m : EStateM ε σ α) (m' : EStateM ε τ α) : Prop :=
  ∀ s, I s → EndsAs view I (m s) (m' (view s))

namespace Mirrors

variable {m : EStateM ε σ α} {m' : EStateM ε τ α} {f : α → EStateM ε σ β} {f' : α → EStateM ε τ β}

theorem pure (a : α) : Mirrors view I (Pure.pure a : EStateM ε σ α) (Pure.pure a) := fun _ hs => .ok hs rfl

theorem throw (e : ε) : Mirrors view I (MonadExcept.throw e : EStateM ε σ α) (MonadExcept.throw e) :=
  fun _ hs => .error hs rfl

theorem modifyGet {step : σ → α × σ} {step' : τ → α × τ}
    (h : ∀ s, I s → I (step s).2 ∧ step' (view s) = ((step s).1, view (step s).2)) :
    Mirrors view I (MonadState.modifyGet step : EStateM ε σ α) (MonadState.modifyGet step') := by
  intro s hs
  obtain ⟨hinv, hstep⟩ := h s hs
  show EndsAs view I (.ok (step s).1 (step s).2) (.ok (step' (view s)).1 (step' (view s)).2)
  rw [hstep]
  exact .ok hinv rfl

theorem bind (hm : Mirrors view I m m') (hf : ∀ a, Mirrors view I (f a) (f' a)) :
    Mirrors view I (m >>= f) (m' >>= f') := by
  intro s hs
  have hends := hm s hs
  cases hrun : m s <;> cases hrun' : m' (view s) <;> rw [hrun, hrun'] at hends
  · rw [bind_of_ok hrun, bind_of_ok hrun']
    cases hends with
    | ok hs ht => exact ht ▸ hf _ _ hs
  · cases hends
  · cases hends
  · rw [bind_of_error hrun, bind_of_error hrun']
    cases hends with
    | error hs ht => exact .error hs ht

/-- A step may look at the whole of its state, where it satisfies `I`. -/
theorem get_bind {g : σ → EStateM ε σ β} {g' : τ → EStateM ε τ β}
    (h : ∀ s, I s → EndsAs view I (g s s) (g' (view s) (view s))) :
    Mirrors view I (get >>= g) (get >>= g') := h

/-- A step that changes nothing where it fails does so just where its counterpart fails and changes nothing. -/
theorem error_iff (hm : Mirrors view I m m') {s t : σ} (hs : I s) (hstill : ∀ e t, m s = .error e t → t = s) {e : ε} :
    m s = .error e t ↔ t = s ∧ m' (view s) = .error e (view s) := by
  have hends := hm s hs
  constructor
  · intro hrun
    obtain rfl := hstill e t hrun
    rw [hrun] at hends
    generalize hrun' : m' (view t) = r at hends
    cases hends with
    | error _ ht => exact ⟨rfl, ht ▸ rfl⟩
  · rintro ⟨rfl, hrun'⟩
    rw [hrun'] at hends
    generalize hrun : m t = r at hends
    cases hends with
    | error _ _ => rw [hstill _ _ hrun]

end Mirrors

end

end FluentChain
