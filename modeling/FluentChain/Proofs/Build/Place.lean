import FluentChain.Position
import FluentChain.Proofs.Text.Padded
import FluentChain.Proofs.Text.Search

/-!
# Written positions

`WrittenPos.Writes` says which texts write a position: a line and a column, each of them decimal digits with blanks
around and perhaps a plus sign, and in front of them the name of a file or none.  Reading a text finds what it writes
and fails on all others (`parse?_eq_some_iff`), so a file name may hold colons and look like a position itself.
-/

namespace FluentChain

namespace Text

theorem isDigit_of_isDigits {cs : List Char} (h : isDigits cs = true) : ∀ c ∈ cs, c.isDigit = true :=
  List.all_eq_true.1 (Bool.and_eq_true_iff.1 h).2

theorem isDigits_toString (n : Nat) : isDigits (toString n).toList = true := by
  rw [Nat.toString_eq_repr, Nat.toList_repr, isDigits, Bool.and_eq_true, List.all_eq_true]
  refine ⟨by simp [Nat.toDigits_ne_nil], fun c hc => ?_⟩
  exact Nat.isDigit_of_mem_toDigits (by decide) (by decide) hc

/-- Decimal digits give back the number that they write. -/
theorem digitsValue_toString (n : Nat) : digitsValue (toString n).toList = n := by
  have hfold : ∀ (cs : List Char), digitsValue cs = Nat.ofDigitChars 10 cs 0 := by
    intro cs
    simp only [digitsValue, Nat.ofDigitChars, Nat.mul_comm]
  rw [hfold, Nat.toString_eq_repr, Nat.toList_repr, Nat.ofDigitChars_toDigits (by decide) (by decide)]

end Text

namespace WrittenPos

open Text

variable {cs before after digits : List Char} {n line col : Nat} {text : String} {w : WrittenPos}

/-- The text writes a number as a line or a column. -/
inductive Counts (n : Nat) : List Char → Prop
  | plain {digits cs : List Char} (hdigits : isDigits digits = true) (hvalue : digitsValue digits = n)
    (hbound : n < countBound) (hcs : Padded digits cs) : Counts n cs
  | plus {digits cs : List Char} (hdigits : isDigits digits = true) (hvalue : digitsValue digits = n)
    (hbound : n < countBound) (hcs : Padded ('+' :: digits) cs) : Counts n cs

/-- The text writes the position. -/
inductive Writes : WrittenPos → List Char → Prop
  | bare {line col : Nat} {lineText colText : List Char} (hline : Counts line lineText) (hcol : Counts col colText) :
    Writes ⟨none, line, col⟩ (lineText ++ ':' :: colText)
  | placed {name lineText colText : List Char} {line col : Nat} (hname : name ≠ []) (hline : Counts line lineText)
    (hcol : Counts col colText) :
    Writes ⟨some (String.ofList name), line, col⟩ (name ++ ':' :: lineText ++ ':' :: colText)

/-! ### The last colon -/

theorem splitLast?_append (h : ':' ∉ after) : splitLast? (before ++ ':' :: after) = some (before, after) := by
  have hafter : ':' ∉ after.reverse := fun hmem => h (List.mem_reverse.1 hmem)
  have hreverse : (before ++ ':' :: after).reverse = after.reverse ++ ':' :: before.reverse := by simp
  rw [splitLast?, hreverse, dropWhile_ne_append hafter, takeWhile_ne_append hafter]
  simp

theorem splitLast?_eq_none (h : ':' ∉ cs) : splitLast? cs = none := by
  rw [splitLast?, dropWhile_ne_eq_nil fun hmem => h (List.mem_reverse.1 hmem)]

/-- A text with a colon has a last one. -/
theorem exists_last_colon (h : ':' ∈ cs) : ∃ before after, cs = before ++ ':' :: after ∧ ':' ∉ after := by
  obtain ⟨after, before, hsplit, hafter⟩ := List.eq_append_cons_of_mem (List.mem_reverse.2 h)
  refine ⟨before.reverse, after.reverse, ?_, by simpa using hafter⟩
  rw [← List.reverse_reverse cs, hsplit]
  simp

theorem splitLast?_eq_some_iff :
    splitLast? cs = some (before, after) ↔ cs = before ++ ':' :: after ∧ ':' ∉ after := by
  constructor
  · intro h
    by_cases hcolon : ':' ∈ cs
    · obtain ⟨before', after', rfl, hafter⟩ := exists_last_colon hcolon
      rw [splitLast?_append hafter] at h
      cases h
      exact ⟨rfl, hafter⟩
    · rw [splitLast?_eq_none hcolon] at h
      cases h
  · rintro ⟨rfl, hafter⟩
    exact splitLast?_append hafter

/-! ### Lines and columns -/

theorem trim_digits (h : isDigits digits = true) : trim digits = digits :=
  trim_eq_self fun c hc => isBlank_of_isDigit (isDigit_of_isDigits h c hc)

theorem trim_plus (h : isDigits digits = true) : trim ('+' :: digits) = '+' :: digits := by
  refine trim_eq_self fun c hc => ?_
  rcases List.mem_cons.1 hc with rfl | hc
  · decide
  · exact isBlank_of_isDigit (isDigit_of_isDigits h c hc)

/-- Digits have no sign in front. -/
theorem ne_plus_of_isDigits (h : isDigits digits = true) (rest : List Char) : digits ≠ '+' :: rest := by
  rintro rfl
  exact absurd (isDigit_of_isDigits h '+' List.mem_cons_self) (by decide)

theorem count?_eq_some_iff : count? cs = some n ↔ Counts n cs := by
  have hread : ∀ {ds}, (if isDigits ds ∧ digitsValue ds < countBound then some (digitsValue ds) else none) = some n ↔
      isDigits ds = true ∧ digitsValue ds = n ∧ n < countBound := by
    intro ds
    rw [Option.ite_none_right_eq_some, Option.some.injEq]
    constructor
    · rintro ⟨⟨hdigits, hbound⟩, rfl⟩
      exact ⟨hdigits, rfl, hbound⟩
    · rintro ⟨hdigits, rfl, hbound⟩
      exact ⟨⟨hdigits, hbound⟩, rfl⟩
  unfold count?
  constructor
  · intro h
    dsimp only at h
    have hpadded := padded_trim cs
    split at h
    · rename_i rest heq
      obtain ⟨hdigits, hvalue, hbound⟩ := hread.1 h
      rw [heq] at hpadded
      exact .plus hdigits hvalue hbound hpadded
    · obtain ⟨hdigits, hvalue, hbound⟩ := hread.1 h
      exact .plain hdigits hvalue hbound hpadded
  · intro h
    dsimp only
    cases h with
    | plain hdigits hvalue hbound hcs =>
      rw [hcs.trim_eq, trim_digits hdigits]
      split
      · exact absurd rfl (ne_plus_of_isDigits hdigits _)
      · exact hread.2 ⟨hdigits, hvalue, hbound⟩
    | plus hdigits hvalue hbound hcs =>
      rw [hcs.trim_eq, trim_plus hdigits]
      exact hread.2 ⟨hdigits, hvalue, hbound⟩

theorem Counts.colon_not_mem (h : Counts n cs) : ':' ∉ cs := by
  have hnone : ∀ {ds : List Char}, isDigits ds = true → ':' ∉ ds := fun hds hmem =>
    absurd (isDigit_of_isDigits hds ':' hmem) (by decide)
  cases h with
  | plain hdigits _ _ hcs => exact hcs.not_mem (by decide) (hnone hdigits)
  | plus hdigits _ _ hcs => exact hcs.not_mem (by decide) (by simpa using hnone hdigits)

theorem Counts.toString (h : n < countBound) : Counts n (toString n).toList :=
  .plain (isDigits_toString n) (digitsValue_toString n) h (.refl _)

/-! ### Positions -/

/-- A text is read as the position that it writes. -/
theorem parse?_eq_some_iff : parse? text = some w ↔ w.Writes text.toList := by
  unfold parse?
  simp only [Option.bind_eq_bind, Option.bind_eq_some_iff, Prod.exists, Option.pure_def]
  constructor
  · rintro ⟨before, colText, hsplit, col, hcol, h⟩
    obtain ⟨htext, -⟩ := splitLast?_eq_some_iff.1 hsplit
    split at h
    · obtain ⟨line, hline, hw⟩ := Option.bind_eq_some_iff.1 h
      cases hw
      rw [htext]
      exact .bare (count?_eq_some_iff.1 hline) (count?_eq_some_iff.1 hcol)
    · rename_i name lineText hsplit'
      obtain ⟨hbefore, -⟩ := splitLast?_eq_some_iff.1 hsplit'
      obtain ⟨line, hline, hw⟩ := Option.bind_eq_some_iff.1 h
      split at hw
      · cases hw
      · rename_i hname
        cases hw
        rw [htext, hbefore]
        exact .placed hname (count?_eq_some_iff.1 hline) (count?_eq_some_iff.1 hcol)
  · intro h
    generalize hcs : text.toList = cs at h
    cases h with
    | bare hline hcol =>
      refine ⟨_, _, splitLast?_append hcol.colon_not_mem, _, count?_eq_some_iff.2 hcol, ?_⟩
      rw [splitLast?_eq_none hline.colon_not_mem]
      exact Option.bind_eq_some_iff.2 ⟨_, count?_eq_some_iff.2 hline, rfl⟩
    | placed hname hline hcol =>
      refine ⟨_, _, splitLast?_append hcol.colon_not_mem, _, count?_eq_some_iff.2 hcol, ?_⟩
      rw [splitLast?_append hline.colon_not_mem]
      exact Option.bind_eq_some_iff.2 ⟨_, count?_eq_some_iff.2 hline, if_neg hname⟩

/-- A position as it is displayed. -/
def place (name : String) (line col : Nat) : String := name ++ ":" ++ toString line ++ ":" ++ toString col

theorem parse?_place {name : String} (hname : name ≠ "") (hline : line < countBound) (hcol : col < countBound) :
    parse? (place name line col) = some ⟨some name, line, col⟩ := by
  have hwrites : Writes ⟨some (String.ofList name.toList), line, col⟩ (place name line col).toList := by
    have htext : (place name line col).toList =
        name.toList ++ ':' :: (toString line).toList ++ ':' :: (toString col).toList := by
      simp [place]
    rw [htext]
    exact .placed (by simpa using hname) (.toString hline) (.toString hcol)
  rw [String.ofList_toList] at hwrites
  exact parse?_eq_some_iff.2 hwrites

end WrittenPos

end FluentChain
