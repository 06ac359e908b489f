/-!
# What a step ensures

Building a program and walking it are steps on a state that may fail.  `Ensures P m Q E` says how a step ends
that starts in a state with `P`: with a result and a state that satisfy `Q`, or with an error and a state that
satisfy `E`.  The lemmas follow the ways in which steps are put together, and `bind_eq_ok` takes a sequence of
two steps apart again.
-/

namespace FluentChain

variable {ε σ α β : Type}

instance decidableEqResult [DecidableEq ε] [DecidableEq σ] [DecidableEq α] : DecidableEq (EStateM.Result ε σ α)
  | .ok a s, .ok b t => decidable_of_iff (a = b ∧ s = t) (by simp)
  | .error e s, .error f t => decidable_of_iff (e = f ∧ s = t) (by simp)
  | .ok .., .error .. => isFalse nofun
  | .error .., .ok .. => isFalse nofun

/-- From any state with `P`, the step `m` ends with `Q`, or it fails with `E`. -/
def Ensures (P : σ → Prop) (m : EStateM ε σ α) (Q : α → σ → Prop) (E : ε → σ → Prop) : Prop :=
  ∀ s, P s → match m s with
    | .ok a t => Q a t
    | .error e t => E e t

/-- The step `m` keeps `I`, also where it fails. -/
abbrev Keeps (I : σ → Prop) (m : EStateM ε σ α) : Prop := Ensures I m (fun _ t => I t) fun _ t => I t

/-- Whatever the step `m` returns satisfies `Q`. -/
abbrev Returns (m : EStateM ε σ α) (Q : α → Prop) : Prop :=
  Ensures (fun _ => True) m (fun a _ => Q a) fun _ _ => True

/-- Whatever the step `m` fails with satisfies `E`. -/
abbrev Throws (m : EStateM ε σ α) (E : ε → Prop) : Prop :=
  Ensures (fun _ => True) m (fun _ _ => True) fun e _ => E e

/-! ### Results without a state -/

/-- A result satisfies `P`, or it is an error that satisfies `E`. -/
def Ends (P : α → Prop) (E : ε → Prop) : Except ε α → Prop
  | .ok a => P a
  | .error e => E e

theorem Ends.bind {P : α → Prop} {Q : β → Prop} {E : ε → Prop} {x : Except ε α} {f : α → Except ε β}
    (hx : Ends P E x) (hf : ∀ a, P a → Ends Q E (f a)) : Ends Q E (x >>= f) := by
  cases x with
  | ok a => exact hf a hx
  | error e => exact hx

theorem Ends.foldlM {P : β → Prop} {E : ε → Prop} {f : β → α → Except ε β} {l : List α}
    (h : ∀ b, ∀ a ∈ l, P b → Ends P E (f b a)) {b : β} (hb : P b) : Ends P E (l.foldlM f b) := by
  induction l generalizing b with
  | nil => exact hb
  | cons a l ih =>
    rw [List.foldlM_cons]
    exact (h b a (by simp) hb).bind fun c hc => ih (fun b' a' ha => h b' a' (by simp [ha])) hc

/-! ### Single runs -/

theorem bind_of_ok {m : EStateM ε σ α} {f : α → EStateM ε σ β} {s t : σ} {a : α} (h : m s = .ok a t) :
    (m >>= f) s = f a t := by
  show EStateM.bind m f s = _
  simp only [EStateM.bind, h]

theorem bind_of_error {m : EStateM ε σ α} {f : α → EStateM ε σ β} {s t : σ} {e : ε} (h : m s = .error e t) :
    (m >>= f) s = .error e t := by
  show EStateM.bind m f s = _
  simp only [EStateM.bind, h]

/-- Steps do the same if their first parts do, and their second parts on what comes of the first. -/
theorem bind_eq_of_ok {m m' : EStateM ε σ α} {f f' : α → EStateM ε σ β} {s : σ} (hm : m s = m' s)
    (hf : ∀ a t, m' s = .ok a t → f a t = f' a t) : (m >>= f) s = (m' >>= f') s := by
  cases hrun : m' s with
  | ok a t =>
    rw [bind_of_ok (hm.trans hrun), bind_of_ok hrun]
    exact hf a t hrun
  | error e t => rw [bind_of_error (hm.trans hrun), bind_of_error hrun]

theorem bind_eq_of_eq {m m' : EStateM ε σ α} {f : α → EStateM ε σ β} {s : σ} (h : m s = m' s) :
    (m >>= f) s = (m' >>= f) s :=
  bind_eq_of_ok h fun _ _ _ => rfl

theorem get_bind {f : σ → EStateM ε σ β} {s : σ} : (get >>= f) s = f s s := rfl

theorem bind_eq_ok {m : EStateM ε σ α} {f : α → EStateM ε σ β} {s u : σ} {b : β} :
    (m >>= f) s = .ok b u ↔ ∃ a t, m s = .ok a t ∧ f a t = .ok b u := by
  cases h : m s with
  | ok a t =>
    rw [bind_of_ok h]
    constructor
    · intro hf
      exact ⟨a, t, rfl, hf⟩
    · rintro ⟨a', t', he, hf⟩
      cases he
      exact hf
  | error e t => simp [bind_of_error h]

theorem bind_eq_error {m : EStateM ε σ α} {f : α → EStateM ε σ β} {s u : σ} {e : ε} :
    (m >>= f) s = .error e u ↔ m s = .error e u ∨ ∃ a t, m s = .ok a t ∧ f a t = .error e u := by
  cases h : m s with
  | ok a t =>
    rw [bind_of_ok h]
    constructor
    · intro hf
      exact Or.inr ⟨a, t, rfl, hf⟩
    · rintro (he | ⟨a', t', he, hf⟩)
      · cases he
      · cases he
        exact hf
  | error e' t => simp [bind_of_error h]

/-- A fold that fails does so at one of its elements, past those before it. -/
theorem foldlM_eq_error {f : β → α → EStateM ε σ β} {l : List α} {b : β} {s t : σ} {e : ε}
    (h : l.foldlM f b s = .error e t) :
    ∃ before a after b' s', l = before ++ a :: after ∧ before.foldlM f b s = .ok b' s' ∧ f b' a s' = .error e t := by
  induction l generalizing b s with
  | nil => cases h
  | cons a l ih =>
    rw [List.foldlM_cons] at h
    rcases bind_eq_error.1 h with hfirst | ⟨b₁, s₁, hfirst, hrest⟩
    · exact ⟨[], a, l, b, s, rfl, rfl, hfirst⟩
    · obtain ⟨before, a', after, b', s', rfl, hbefore, hfail⟩ := ih hrest
      refine ⟨a :: before, a', after, b', s', rfl, ?_, hfail⟩
      rw [List.foldlM_cons, bind_of_ok hfirst]
      exact hbefore

/-- A fold that succeeds has passed through each of its elements. -/
theorem foldlM_eq_ok_of_mem {f : β → α → EStateM ε σ β} {l : List α} {a : α} (ha : a ∈ l) {b b' : β} {s t : σ}
    (h : l.foldlM f b s = .ok b' t) :
    ∃ b₁ s₁ b₂ s₂ after, f b₁ a s₁ = .ok b₂ s₂ ∧ List.foldlM f b₂ after s₂ = .ok b' t := by
  obtain ⟨before, after, rfl⟩ := List.append_of_mem ha
  rw [List.foldlM_append] at h
  obtain ⟨b₁, s₁, -, hrest⟩ := bind_eq_ok.1 h
  rw [List.foldlM_cons] at hrest
  obtain ⟨b₂, s₂, hstep, hafter⟩ := bind_eq_ok.1 hrest
  exact ⟨b₁, s₁, b₂, s₂, after, hstep, hafter⟩

/-- The step `m` succeeds in `s` and changes nothing. -/
def Still (m : EStateM ε σ α) (s : σ) : Prop := ∃ a, m s = .ok a s

namespace Still

theorem pure (a : α) (s : σ) : Still (Pure.pure a : EStateM ε σ α) s := ⟨a, rfl⟩

theorem bind {m : EStateM ε σ α} {f : α → EStateM ε σ β} {s : σ} (hm : Still m s) (hf : ∀ a, Still (f a) s) :
    Still (m >>= f) s := by
  obtain ⟨a, ha⟩ := hm
  obtain ⟨b, hb⟩ := hf a
  exact ⟨b, (bind_of_ok ha).trans hb⟩

theorem foldlM {f : β → α → EStateM ε σ β} {l : List α} {s : σ} (h : ∀ b, ∀ a ∈ l, Still (f b a) s) (b : β) :
    Still (l.foldlM f b) s := by
  induction l generalizing b with
  | nil => exact pure b s
  | cons a l ih =>
    rw [List.foldlM_cons]
    exact bind (h b a (by simp)) fun c => ih (fun b' a' ha => h b' a' (by simp [ha])) c

end Still

namespace Ensures

variable {P P' : σ → Prop} {Q Q' : α → σ → Prop} {E E' : ε → σ → Prop} {m : EStateM ε σ α}

theorem of_ok (h : Ensures P m Q E) {s t : σ} {a : α} (hs : P s) (hm : m s = .ok a t) : Q a t := by
  have := h s hs
  rwa [hm] at this

theorem of_error (h : Ensures P m Q E) {s t : σ} {e : ε} (hs : P s) (hm : m s = .error e t) : E e t := by
  have := h s hs
  rwa [hm] at this

/-- It is enough to look at the two ways in which a step can end. -/
theorem intro (hok : ∀ s a t, P s → m s = .ok a t → Q a t)
    (herror : ∀ s e t, P s → m s = .error e t → E e t) : Ensures P m Q E := by
  intro s hs
  cases hm : m s with
  | ok a t => exact hok s a t hs hm
  | error e t => exact herror s e t hs hm

theorem weaken (h : Ensures P m Q E) (hP : ∀ s, P' s → P s) (hQ : ∀ a t, Q a t → Q' a t)
    (hE : ∀ e t, E e t → E' e t) : Ensures P' m Q' E' :=
  intro (fun _ a t hs hm => hQ a t (h.of_ok (hP _ hs) hm))
    fun _ e t hs hm => hE e t (h.of_error (hP _ hs) hm)

/-- What a step ensures wherever it starts comes on top. -/
theorem and {R : α → σ → Prop} (h : Ensures P m Q E) (hR : Ensures (fun _ => True) m R fun _ _ => True) :
    Ensures P m (fun a t => Q a t ∧ R a t) E :=
  intro (fun _ _ _ hs hm => ⟨h.of_ok hs hm, hR.of_ok trivial hm⟩) fun _ _ _ hs hm => h.of_error hs hm

/-- What holds whatever the state may be assumed beforehand. -/
theorem assume {X : Prop} (h : X → Ensures P m Q E) : Ensures (fun s => P s ∧ X) m Q E :=
  fun s hs => h hs.2 s hs.1

theorem given {X : Prop} (h : X → Ensures (fun _ => True) m Q E) : Ensures (fun _ => X) m Q E :=
  fun s hs => h hs s trivial

/-! ### Steps put together -/

theorem pure {a : α} (h : ∀ s, P s → Q a s) : Ensures P (Pure.pure a : EStateM ε σ α) Q E := h

theorem throw {e : ε} (h : ∀ s, P s → E e s) :
    Ensures P (MonadExcept.throw e : EStateM ε σ α) Q E := h

theorem get {Q : σ → σ → Prop} (h : ∀ s, P s → Q s s) :
    Ensures P (MonadState.get : EStateM ε σ σ) Q E := h

theorem modifyGet {f : σ → α × σ} (h : ∀ s, P s → Q (f s).1 (f s).2) :
    Ensures P (MonadState.modifyGet f : EStateM ε σ α) Q E := h

theorem bind {Q : β → σ → Prop} {R : α → σ → Prop} {f : α → EStateM ε σ β} (hm : Ensures P m R E)
    (hf : ∀ a, Ensures (R a) (f a) Q E) : Ensures P (m >>= f) Q E := by
  intro s hs
  cases hr : m s with
  | ok a t =>
    rw [bind_of_ok hr]
    exact hf a t (hm.of_ok hs hr)
  | error e t =>
    rw [bind_of_error hr]
    exact hm.of_error hs hr

/-- A loop over `l`, each element of which contributes some items; `J` speaks of those contributed so far. -/
theorem forM_flatMap {ι : Type} {J : List ι → σ → Prop} {g : α → List ι} {f : α → EStateM ε σ PUnit} {l : List α}
    (h : ∀ before, ∀ a ∈ l, Ensures (J before) (f a) (fun _ t => J (before ++ g a) t) E) (before : List ι) :
    Ensures (J before) (l.forM f) (fun _ t => J (before ++ l.flatMap g) t) E := by
  induction l generalizing before with
  | nil => exact pure fun _ hs => by simpa using hs
  | cons a l ih =>
    rw [List.flatMap_cons, ← List.append_assoc]
    exact bind (h before a (by simp)) fun _ => ih (fun before' b hb => h before' b (by simp [hb])) (before ++ g a)

theorem forM {I : σ → Prop} {f : α → EStateM ε σ PUnit} {l : List α}
    (h : ∀ a ∈ l, Ensures I (f a) (fun _ t => I t) E) : Ensures I (l.forM f) (fun _ t => I t) E :=
  forM_flatMap (J := fun (_ : List Unit) => I) (g := fun _ => []) (fun _ => h) []

theorem foldlM {J : β → σ → Prop} {f : β → α → EStateM ε σ β} {l : List α}
    (h : ∀ b, ∀ a ∈ l, Ensures (J b) (f b a) J E) (b : β) : Ensures (J b) (l.foldlM f b) J E := by
  induction l generalizing b with
  | nil => exact pure fun _ hs => hs
  | cons a l ih =>
    rw [List.foldlM_cons]
    exact bind (h b a (by simp)) fun c => ih (fun b' a' ha => h b' a' (by simp [ha])) c

/-- Loops do the same if their bodies do where `J` holds, which the bodies keep. -/
theorem foldlM_eq {J : β → σ → Prop} {f g : β → α → EStateM ε σ β} {l : List α}
    (hg : ∀ b, ∀ a ∈ l, Ensures (J b) (g b a) J E) (h : ∀ b, ∀ a ∈ l, ∀ s, J b s → f b a s = g b a s) {b : β} {s : σ}
    (hs : J b s) : l.foldlM f b s = l.foldlM g b s := by
  induction l generalizing b s with
  | nil => rfl
  | cons a l ih =>
    rw [List.foldlM_cons, List.foldlM_cons]
    refine bind_eq_of_ok (h b a (by simp) s hs) fun c t hrun => ?_
    exact ih (fun b' a' ha => hg b' a' (by simp [ha])) (fun b' a' ha => h b' a' (by simp [ha]))
      ((hg b a (by simp)).of_ok hs hrun)

/-- The results are collected from the left; `J` speaks of those collected so far. -/
theorem mapM {J : List β → σ → Prop} {f : α → EStateM ε σ β} {l : List α}
    (h : ∀ bs, ∀ a ∈ l, Ensures (J bs) (f a) (fun b t => J (bs ++ [b]) t) E) (bs : List β) :
    Ensures (J bs) (l.mapM f) (fun cs t => J (bs ++ cs) t) E := by
  induction l generalizing bs with
  | nil => exact pure fun _ hs => by simpa using hs
  | cons a l ih =>
    rw [List.mapM_cons]
    refine bind (h bs a (by simp)) fun b => ?_
    refine bind (ih (fun bs' a' ha => h bs' a' (by simp [ha])) (bs ++ [b])) fun cs => ?_
    exact pure fun _ hs => by simpa using hs

end Ensures

/-- What a step ensures wherever it starts, it ensures after any other step. -/
theorem ensures_bind {m : EStateM ε σ α} {f : α → EStateM ε σ β} {Q : β → σ → Prop}
    (h : ∀ a, Ensures (fun _ => True) (f a) Q fun _ _ => True) : Ensures (fun _ => True) (m >>= f) Q fun _ _ => True :=
  Ensures.bind (R := fun _ _ => True) (Ensures.intro (fun _ _ _ _ _ => trivial) fun _ _ _ _ _ => trivial) h

theorem throws_bind {m : EStateM ε σ α} {f : α → EStateM ε σ β} {E : ε → Prop} (hm : Throws m E)
    (hf : ∀ a, Throws (f a) E) : Throws (m >>= f) E :=
  Ensures.bind hm fun a => hf a

/-- Steps whose result is not used return what the last step returns. -/
theorem returns_bind {m : EStateM ε σ α} {f : α → EStateM ε σ β} {Q : β → Prop} (h : ∀ a, Returns (f a) Q) :
    Returns (m >>= f) Q :=
  ensures_bind h

end FluentChain
