import FluentChain.Text.CharRange

/-!
# Blanks

The characters with the Unicode property White_Space, and trimming them off the ends of a text.
-/

namespace FluentChain.Text

/-- The code points with the property White_Space. -/
def blankRanges : List (Nat × Nat) :=
  [(0x9, 0xD), (0x20, 0x20), (0x85, 0x85), (0xA0, 0xA0), (0x1680, 0x1680), (0x2000, 0x200A),
   (0x2028, 0x2029), (0x202F, 0x202F), (0x205F, 0x205F), (0x3000, 0x3000)]

def isBlank (c : Char) : Bool := inRanges blankRanges c.toNat

/-- The characters that may stand between two tokens of a JSON text. -/
def isSpace (c : Char) : Bool := c == ' ' || c == '\t' || c == '\n' || c == '\r'

def trimStart (cs : List Char) : List Char := cs.dropWhile isBlank

def trimEnd (cs : List Char) : List Char := (cs.reverse.dropWhile isBlank).reverse

/-- The text without the blanks at its two ends. -/
def trim (cs : List Char) : List Char := trimEnd (trimStart cs)

theorem length_dropWhile_le (p : Char → Bool) (cs : List Char) :
    (cs.dropWhile p).length ≤ cs.length :=
  (List.dropWhile_sublist p).length_le

theorem length_trim_le (cs : List Char) : (trim cs).length ≤ cs.length := by
  have hstart := length_dropWhile_le isBlank cs
  have hend := length_dropWhile_le isBlank (trimStart cs).reverse
  simp only [trim, trimEnd, List.length_reverse] at *
  exact Nat.le_trans hend hstart

end FluentChain.Text
