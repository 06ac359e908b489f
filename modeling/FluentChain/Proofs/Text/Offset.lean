import Mathlib.Data.List.TakeWhile

/-!
# Offsets into texts

A text is kept as the UTF-8 bytes of its characters, and an offset into it counts bytes.  A text can be cut at an
offset only where one character ends and the next begins: `cut` gives the two parts, and fails at an offset behind the
end and at one inside a character (`cut_eq_ok_iff`).

An ASCII character is one byte, and all bytes of the other characters are at least 0x80
(`le_of_mem_utf8EncodeChar`).  So a byte that looks like an ASCII character is one.
-/

namespace FluentChain.Text

variable {text front back : String} {offset : Nat} {b : UInt8} {c : Char}

/-- An offset at which a text cannot be cut: it is behind the end or inside a character. -/
structure BadOffset where
  text : String
  offset : Nat
deriving DecidableEq, Repr

/-- The parts of a text in front of an offset and behind it. -/
def cut (text : String) (offset : Nat) : Except BadOffset (String × String) :=
  if h : String.Pos.Raw.IsValid text ⟨offset⟩ then
    let place : text.Pos := ⟨⟨offset⟩, h⟩
    .ok ((text.sliceTo place).copy, (text.sliceFrom place).copy)
  else .error ⟨text, offset⟩

/-- The bytes that a text is kept as. -/
def bytesOf (text : String) : List UInt8 := text.toByteArray.data.toList

theorem cut_append (front back : String) : cut (front ++ back) front.utf8ByteSize = .ok (front, back) := by
  have hvalid : String.Pos.Raw.IsValid (front ++ back) ⟨front.utf8ByteSize⟩ :=
    String.Pos.Raw.isValid_iff_exists_append.2 ⟨front, back, rfl, rfl⟩
  have hsplits : (⟨⟨front.utf8ByteSize⟩, hvalid⟩ : (front ++ back).Pos).Splits front back := ⟨rfl, rfl⟩
  unfold cut
  rw [dif_pos hvalid]
  simp only [hsplits.copy_sliceTo_eq, hsplits.copy_sliceFrom_eq]

/-- The offsets at which a text can be cut are the sizes of its beginnings. -/
theorem cut_eq_ok_iff : cut text offset = .ok (front, back) ↔ text = front ++ back ∧ offset = front.utf8ByteSize := by
  constructor
  · intro h
    unfold cut at h
    split at h
    · rename_i hvalid
      have hsplits := String.Pos.splits (⟨⟨offset⟩, hvalid⟩ : text.Pos)
      cases h
      exact ⟨hsplits.eq_append, congrArg String.Pos.Raw.byteIdx hsplits.offset_eq_rawEndPos⟩
    · cases h
  · rintro ⟨rfl, rfl⟩
    exact cut_append front back

theorem utf8ByteSize_of_cut (h : cut text offset = .ok (front, back)) :
    back.utf8ByteSize + offset = text.utf8ByteSize := by
  obtain ⟨rfl, rfl⟩ := cut_eq_ok_iff.1 h
  rw [String.utf8ByteSize_append, Nat.add_comm]

theorem utf8ByteSize_dropWhile_le (p : Char → Bool) (text : String) :
    (String.ofList (text.toList.dropWhile p)).utf8ByteSize ≤ text.utf8ByteSize := by
  have hsplit : text = String.ofList (text.toList.takeWhile p) ++ String.ofList (text.toList.dropWhile p) := by
    rw [← String.ofList_append, List.takeWhile_append_dropWhile, String.ofList_toList]
  have hsize := congrArg String.utf8ByteSize hsplit
  rw [String.utf8ByteSize_append] at hsize
  omega

/-! ### Bytes -/

theorem length_bytesOf (text : String) : (bytesOf text).length = text.utf8ByteSize := rfl

theorem bytesOf_ofList (cs : List Char) : bytesOf (String.ofList cs) = cs.flatMap String.utf8EncodeChar := by
  rw [bytesOf, String.toByteArray_ofList, List.utf8Encode, List.toList_data_toByteArray]

theorem bytesOf_nil : bytesOf (String.ofList []) = [] := bytesOf_ofList []

theorem bytesOf_cons (c : Char) (cs : List Char) :
    bytesOf (String.ofList (c :: cs)) = String.utf8EncodeChar c ++ bytesOf (String.ofList cs) := by
  rw [bytesOf_ofList, bytesOf_ofList, List.flatMap_cons]

theorem utf8ByteSize_cons (c : Char) (cs : List Char) :
    (String.ofList (c :: cs)).utf8ByteSize = c.utf8Size + (String.ofList cs).utf8ByteSize := by
  rw [← length_bytesOf, bytesOf_cons, List.length_append, String.length_utf8EncodeChar, length_bytesOf]

/-- An ASCII character is one byte. -/
theorem utf8EncodeChar_of_ascii (h : c.toNat < 0x80) :
    String.utf8EncodeChar c = [c.toUInt8] := by
  have hsize : c.utf8Size = 1 := Char.utf8Size_eq_one_iff.2 (UInt32.le_iff_toNat_le.2 (Nat.le_of_lt_succ h))
  exact String.utf8EncodeChar_eq_singleton hsize

/-- No byte of any other character is an ASCII character. -/
theorem le_of_mem_utf8EncodeChar (h : 0x80 ≤ c.toNat) (hb : b ∈ String.utf8EncodeChar c) :
    0x80 ≤ b := by
  have hle : ¬ c.val.toNat ≤ 127 := Nat.not_le_of_lt h
  have hhigh : ∀ n, 128 ≤ n → n < 256 → 0x80 ≤ UInt8.ofNat n := by
    intro n hn hlt
    rw [UInt8.le_iff_toNat_le, UInt8.toNat_ofNat_of_lt' hlt]
    exact hn
  simp only [String.utf8EncodeChar, hle, ↓reduceIte] at hb
  split at hb
  · simp only [List.mem_cons, List.not_mem_nil, or_false] at hb
    rcases hb with rfl | rfl
    all_goals exact hhigh _ (by omega) (by omega)
  · split at hb
    · simp only [List.mem_cons, List.not_mem_nil, or_false] at hb
      rcases hb with rfl | rfl | rfl
      all_goals exact hhigh _ (by omega) (by omega)
    · simp only [List.mem_cons, List.not_mem_nil, or_false] at hb
      rcases hb with rfl | rfl | rfl | rfl
      all_goals exact hhigh _ (by omega) (by omega)

theorem utf8EncodeChar_ne_nil (c : Char) : String.utf8EncodeChar c ≠ [] := by
  have hpos := c.utf8Size_pos
  rw [← String.length_utf8EncodeChar] at hpos
  exact List.ne_nil_of_length_pos hpos

theorem toNat_toUInt8 (h : c.toNat < 0x80) : c.toUInt8.toNat = c.toNat := by
  rw [Char.toUInt8, UInt32.toNat_toUInt8]
  exact Nat.mod_eq_of_lt (Nat.lt_trans h (by decide))

/-- A character that is not a given ASCII character has none of its bytes. -/
theorem ne_of_mem_utf8EncodeChar {d : Char} (hd : d.toNat < 0x80) (hc : c ≠ d) (hb : b ∈ String.utf8EncodeChar c) :
    b ≠ d.toUInt8 := by
  rintro rfl
  by_cases hascii : c.toNat < 0x80
  · rw [utf8EncodeChar_of_ascii hascii, List.mem_singleton] at hb
    have hsame := congrArg UInt8.toNat hb
    rw [toNat_toUInt8 hascii, toNat_toUInt8 hd] at hsame
    exact hc (Char.toNat_inj.1 hsame.symm)
  · have hle := UInt8.le_iff_toNat_le.1 (le_of_mem_utf8EncodeChar (Nat.le_of_not_lt hascii) hb)
    rw [toNat_toUInt8 hd] at hle
    exact absurd hd (Nat.not_lt_of_le hle)

theorem utf8ByteSize_append_ascii (hc : c.toNat < 0x80) (cs : List Char) :
    (String.ofList (cs ++ [c])).utf8ByteSize = (String.ofList cs).utf8ByteSize + 1 := by
  have hone : c.utf8Size = 1 := by
    rw [← String.length_utf8EncodeChar, utf8EncodeChar_of_ascii hc]
    rfl
  rw [String.ofList_append, String.utf8ByteSize_append, utf8ByteSize_cons, hone]
  rfl

end FluentChain.Text
