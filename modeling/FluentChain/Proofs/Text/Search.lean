import Mathlib.Data.List.TakeWhile

/-!
# Searching a text for its end

A bracketed part and a quoted one end at the first character of a kind that is not inside another part of the text.
What such a search passes over can be put together from pieces that it passes over.  Where nothing is inside anything
else the search ends at the first such character.
-/

namespace FluentChain.Text

variable {find : List Char → Option (List Char × List Char)} {cs ds rest after : List Char}

/-! ### The first of a character -/

theorem takeWhile_ne_append {d : Char} (h : d ∉ cs) : (cs ++ d :: rest).takeWhile (· ≠ d) = cs := by
  have hne : ∀ c ∈ cs, decide (c ≠ d) = true := fun c hc => decide_eq_true fun heq => h (heq ▸ hc)
  rw [List.takeWhile_append_of_pos hne, List.takeWhile_cons_of_neg (by simp), List.append_nil]

theorem dropWhile_ne_append {d : Char} (h : d ∉ cs) : (cs ++ d :: rest).dropWhile (· ≠ d) = d :: rest := by
  have hne : ∀ c ∈ cs, decide (c ≠ d) = true := fun c hc => decide_eq_true fun heq => h (heq ▸ hc)
  rw [List.dropWhile_append_of_pos hne]
  exact List.dropWhile_cons_of_neg (by simp)

theorem dropWhile_ne_eq_nil {d : Char} (h : d ∉ cs) : cs.dropWhile (· ≠ d) = [] :=
  List.dropWhile_eq_nil_iff.2 fun _ hc => decide_eq_true fun heq => h (heq ▸ hc)

/-! ### Pieces that a search passes over -/

/-- A search that splits a text at its end does not stop in `cs` but behind it. -/
def Passes (find : List Char → Option (List Char × List Char)) (cs : List Char) : Prop :=
  ∀ rest, find (cs ++ rest) = (find rest).map (Prod.map (cs ++ ·) id)

namespace Passes

theorem nil : Passes find [] := fun _ => Option.map_id'.symm

theorem append (h : Passes find cs) (h' : Passes find ds) : Passes find (cs ++ ds) := by
  intro rest
  rw [List.append_assoc, h, h', Option.map_map]
  refine congrArg (Option.map · _) (funext fun ⟨inner, after⟩ => ?_)
  simp

theorem of_forall (h : ∀ c ∈ cs, Passes find [c]) : Passes find cs := by
  induction cs with
  | nil => exact nil
  | cons c cs ih => exact (h c List.mem_cons_self).append (ih fun d hd => h d (List.mem_cons_of_mem c hd))

/-- The search that stops at the front of a text stops behind what it passes over. -/
theorem stop (h : Passes find cs) (hstop : find rest = some ([], after)) : find (cs ++ rest) = some (cs, after) := by
  rw [h, hstop, Option.map_some, Prod.map_apply, List.append_nil, id]

end Passes

end FluentChain.Text
