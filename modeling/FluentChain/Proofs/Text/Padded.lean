import FluentChain.Text.Blank
import Mathlib.Data.List.TakeWhile

/-!
# Blanks around texts

`Text.Padded` says that a text stands between blanks.  The blanks are trimmed off (`Padded.trim_eq`), and every text is
what is left of it between the blanks at its ends (`padded_trim`).
-/

namespace FluentChain.Text

variable {text whole cs ds : List Char}

theorem isBlank_of_isDigit {c : Char} (h : c.isDigit = true) : isBlank c = false := by
  obtain ⟨hzero, hnine⟩ := Char.isDigit_iff_toNat.1 h
  have hbounds : '0'.toNat = 48 ∧ '9'.toNat = 57 := ⟨rfl, rfl⟩
  rw [isBlank, ← Bool.not_eq_true, inRanges_iff]
  simp only [blankRanges, List.mem_cons, List.not_mem_nil, or_false, exists_eq_or_imp, exists_eq_left]
  omega

/-- A text without blanks has none to trim off. -/
theorem trim_eq_self {cs : List Char} (h : ∀ c ∈ cs, isBlank c = false) : trim cs = cs := by
  have hdrop : ∀ {ds : List Char}, (∀ c ∈ ds, isBlank c = false) → ds.dropWhile isBlank = ds := by
    intro ds hds
    cases ds with
    | nil => rfl
    | cons d ds => rw [List.dropWhile_cons, hds d List.mem_cons_self, if_neg Bool.false_ne_true]
  unfold trim trimEnd trimStart
  rw [hdrop h, hdrop fun c hc => h c (List.mem_reverse.1 hc), List.reverse_reverse]

/-- Behind a character that is no blank the end is trimmed as it would be alone. -/
theorem trimEnd_append_cons {c : Char} (hc : isBlank c = false) (before after : List Char) :
    trimEnd (before ++ c :: after) = before ++ c :: trimEnd after := by
  unfold trimEnd
  rw [List.reverse_append, List.reverse_cons, List.append_assoc, List.dropWhile_append]
  split
  · rename_i hall
    simp [List.isEmpty_iff.1 hall, hc]
  · simp

/-- `whole` is `text` with blanks around it. -/
def Padded (text whole : List Char) : Prop :=
  ∃ before after, (∀ c ∈ before, isBlank c = true) ∧ (∀ c ∈ after, isBlank c = true) ∧
    whole = before ++ text ++ after

theorem Padded.refl (text : List Char) : Padded text text := ⟨[], [], nofun, nofun, by simp⟩

theorem Padded.mem {c : Char} (h : Padded text whole) (hc : c ∈ text) : c ∈ whole := by
  obtain ⟨before, after, -, -, rfl⟩ := h
  simp [hc]

/-- What is no blank stands in the text or nowhere. -/
theorem Padded.not_mem {c : Char} (h : Padded text whole) (hblank : isBlank c = false) (hc : c ∉ text) : c ∉ whole := by
  obtain ⟨before, after, hbefore, hafter, rfl⟩ := h
  have hblanks : ∀ {cs : List Char}, (∀ d ∈ cs, isBlank d = true) → c ∉ cs := by
    intro cs hcs hmem
    rw [hcs c hmem] at hblank
    cases hblank
  simp [hblanks hbefore, hblanks hafter, hc]

theorem exists_trimEnd_append (cs : List Char) :
    ∃ after, (∀ c ∈ after, isBlank c = true) ∧ cs = trimEnd cs ++ after := by
  refine ⟨(cs.reverse.takeWhile isBlank).reverse, fun c hc => ?_, ?_⟩
  · exact List.mem_takeWhile_imp (List.mem_reverse.1 hc)
  · rw [trimEnd, ← List.reverse_append, List.takeWhile_append_dropWhile, List.reverse_reverse]

/-- A text is what is left of it between the blanks at its ends. -/
theorem padded_trim (cs : List Char) : Padded (trim cs) cs := by
  obtain ⟨after, hafter, hsplit⟩ := exists_trimEnd_append (trimStart cs)
  refine ⟨cs.takeWhile isBlank, after, fun c hc => List.mem_takeWhile_imp hc, hafter, ?_⟩
  rw [List.append_assoc, trim, ← hsplit, trimStart, List.takeWhile_append_dropWhile]

theorem trimEnd_append_of_blank (h : ∀ c ∈ ds, isBlank c = true) : trimEnd (cs ++ ds) = trimEnd cs := by
  rw [trimEnd, trimEnd, List.reverse_append, List.dropWhile_append_of_pos fun c hc => h c (List.mem_reverse.1 hc)]

theorem trim_append_of_blank (h : ∀ c ∈ ds, isBlank c = true) : trim (cs ++ ds) = trim cs := by
  unfold trim trimStart
  rw [List.dropWhile_append]
  split
  · rename_i hempty
    rw [List.isEmpty_iff.1 hempty, List.dropWhile_eq_nil_iff.2 h]
  · exact trimEnd_append_of_blank h

/-- The blanks around a text are trimmed off. -/
theorem Padded.trim_eq (h : Padded text whole) : trim whole = trim text := by
  obtain ⟨before, after, hbefore, hafter, rfl⟩ := h
  rw [trim_append_of_blank hafter, trim, trim, trimStart, trimStart, List.dropWhile_append_of_pos hbefore]

/-- Just the texts with blanks only are trimmed away. -/
theorem trim_eq_nil_iff : trim cs = [] ↔ ∀ c ∈ cs, isBlank c = true := by
  constructor
  · intro h
    obtain ⟨before, after, hbefore, hafter, heq⟩ := padded_trim cs
    rw [h, List.append_nil] at heq
    intro c hc
    rw [heq] at hc
    rcases List.mem_append.1 hc with hc | hc
    · exact hbefore c hc
    · exact hafter c hc
  · intro h
    have hpadded : Padded [] cs := ⟨cs, [], h, nofun, by simp⟩
    exact hpadded.trim_eq

theorem trim_trimEnd (cs : List Char) : trim (trimEnd cs) = trim cs := by
  obtain ⟨after, hafter, hsplit⟩ := exists_trimEnd_append cs
  rw [hsplit, trim_append_of_blank hafter, ← hsplit]

theorem trim_cons {c : Char} (hc : isBlank c = false) (rest : List Char) : trim (c :: rest) = c :: trimEnd rest := by
  rw [trim, trimStart, List.dropWhile_cons, hc, if_neg Bool.false_ne_true]
  exact trimEnd_append_cons hc [] rest

end FluentChain.Text
