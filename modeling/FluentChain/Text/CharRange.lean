/-!
# Ranges of characters

A class of characters is given as a list of closed ranges of code points; `inRanges` decides membership, and
`inRanges_iff` says so in terms of the ranges.
-/

namespace FluentChain.Text

/-- Whether a code point lies in one of the closed ranges. -/
def inRanges (ranges : List (Nat × Nat)) (code : Nat) : Bool :=
  ranges.any fun (first, last) => first ≤ code && code ≤ last

theorem inRanges_iff {ranges : List (Nat × Nat)} {code : Nat} :
    inRanges ranges code = true ↔ ∃ r ∈ ranges, r.1 ≤ code ∧ code ≤ r.2 := by
  simp [inRanges]

end FluentChain.Text
