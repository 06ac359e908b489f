import FluentChain.Proofs.Text.Search
import FluentChain.Text.Quoted

/-!
# What quoted texts stand for

`Quoted.Literal` says which texts a quoted form may write and how: each character plainly, behind a backslash, as
the UTF-16 unit it is, or as the pair of units it takes.  The closing quote of a literal is found whatever its
escapes are (`Literal.split`), and reading what stands before it gives back the text (`decode_eq_some_iff`).
-/

namespace FluentChain.Text.Quoted

variable {a b c d e : Char} {body cs rest text : List Char} {items : List Item} {value high low : Nat}

/-- What may stand between two quotes, and the text that it writes. -/
inductive Literal : List Char → List Char → Prop
  | nil : Literal [] []
  | plain {c : Char} {body text : List Char} (hc : ' ' ≤ c ∧ c ≠ '"' ∧ c ≠ '\\') (h : Literal body text) :
    Literal (c :: body) (c :: text)
  | short {c e : Char} {body text : List Char} (he : shortEscape? e = some c) (h : Literal body text) :
    Literal ('\\' :: e :: body) (c :: text)
  | unit {c h₁ h₂ h₃ h₄ : Char} {body text : List Char} (hunit : hexUnit? h₁ h₂ h₃ h₄ = some c.toNat)
    (h : Literal body text) : Literal ('\\' :: 'u' :: h₁ :: h₂ :: h₃ :: h₄ :: body) (c :: text)
  | pair {c h₁ h₂ h₃ h₄ l₁ l₂ l₃ l₄ : Char} {body text : List Char} (hc : 0x10000 ≤ c.toNat)
    (hhigh : hexUnit? h₁ h₂ h₃ h₄ = some (0xD800 + (c.toNat - 0x10000) / 0x400))
    (hlow : hexUnit? l₁ l₂ l₃ l₄ = some (0xDC00 + (c.toNat - 0x10000) % 0x400)) (h : Literal body text) :
    Literal ('\\' :: 'u' :: h₁ :: h₂ :: h₃ :: h₄ :: '\\' :: 'u' :: l₁ :: l₂ :: l₃ :: l₄ :: body) (c :: text)

/-! ### Hexadecimal units -/

theorem toNat_le_toNat (h : c ≤ d) : c.toNat ≤ d.toNat := UInt32.le_iff_toNat_le.1 h

theorem hexDigit?_lt (h : hexDigit? c = some value) : value < 16 := by
  have hzero : '9'.toNat = '0'.toNat + 9 := rfl
  have hsmall : 'f'.toNat = 'a'.toNat + 5 := rfl
  have hcapital : 'F'.toNat = 'A'.toNat + 5 := rfl
  unfold hexDigit? at h
  split at h
  · rename_i hc
    cases h
    have hle := toNat_le_toNat hc.2
    omega
  · split at h
    · rename_i hc
      cases h
      have hle := toNat_le_toNat hc.2
      omega
    · split at h
      · rename_i hc
        cases h
        have hle := toNat_le_toNat hc.2
        omega
      · cases h

theorem hexUnit?_eq_some_iff : hexUnit? a b c d = some value ↔ ∃ i j k l, hexDigit? a = some i ∧ hexDigit? b = some j ∧
    hexDigit? c = some k ∧ hexDigit? d = some l ∧ (i * 16 + j) * 256 + (k * 16 + l) = value := by
  simp only [hexUnit?, Option.bind_eq_bind, Option.bind_eq_some_iff, Option.pure_def, Option.some.injEq]
  constructor
  · rintro ⟨i, hi, j, hj, k, hk, l, hl, hvalue⟩
    exact ⟨i, j, k, l, hi, hj, hk, hl, hvalue⟩
  · rintro ⟨i, j, k, l, hi, hj, hk, hl, hvalue⟩
    exact ⟨i, hi, j, hj, k, hk, l, hl, hvalue⟩

theorem hexUnit?_lt (h : hexUnit? a b c d = some value) : value < 0x10000 := by
  obtain ⟨i, j, k, l, hi, hj, hk, hl, rfl⟩ := hexUnit?_eq_some_iff.1 h
  have := hexDigit?_lt hi
  have := hexDigit?_lt hj
  have := hexDigit?_lt hk
  have := hexDigit?_lt hl
  omega

theorem not_special_of_hexDigit? (h : hexDigit? c = some value) : c ≠ '"' ∧ c ≠ '\\' := by
  refine ⟨?_, ?_⟩
  all_goals
    rintro rfl
    exact absurd h (by simp [hexDigit?])

theorem not_special_of_hexUnit? (h : hexUnit? a b c d = some value) : ∀ c' ∈ [a, b, c, d], c' ≠ '"' ∧ c' ≠ '\\' := by
  obtain ⟨i, j, k, l, hi, hj, hk, hl, -⟩ := hexUnit?_eq_some_iff.1 h
  simp only [List.forall_mem_cons]
  exact ⟨not_special_of_hexDigit? hi, not_special_of_hexDigit? hj, not_special_of_hexDigit? hk,
    not_special_of_hexDigit? hl, nofun⟩

/-! ### The closing quote -/

theorem split_escape : split ('\\' :: c :: rest) = (split rest).map (Prod.map ('\\' :: c :: ·) id) := by
  rw [split]
  rfl

theorem split_plain (hquote : c ≠ '"') (hslash : c ≠ '\\') :
    split (c :: rest) = (split rest).map (Prod.map (c :: ·) id) := by
  rw [split]
  · rfl
  all_goals simp_all

theorem passes_escape (c : Char) : Passes split ['\\', c] := fun _ => split_escape

theorem passes_plain (h : ∀ c ∈ cs, c ≠ '"' ∧ c ≠ '\\') : Passes split cs :=
  .of_forall fun c hc _ => split_plain (h c hc).1 (h c hc).2

/-- A quote that an escape writes does not close the literal. -/
theorem Literal.passes (h : Literal body text) : Passes Quoted.split body := by
  have hescape : ∀ {a b c d : Char} {value : Nat}, hexUnit? a b c d = some value →
      Passes Quoted.split ('\\' :: 'u' :: [a, b, c, d]) := fun hunit =>
    (passes_escape 'u').append (passes_plain (not_special_of_hexUnit? hunit))
  induction h with
  | nil => exact .nil
  | @plain c body text hc _ ih =>
    have hplain : Passes Quoted.split [c] := passes_plain (by simpa using hc.2)
    exact hplain.append ih
  | short _ _ ih => exact (passes_escape _).append ih
  | unit hunit _ ih => exact (hescape hunit).append ih
  | pair _ hhigh hlow _ ih => exact (hescape hhigh).append ((hescape hlow).append ih)

/-- What is behind the closing quote of a literal is left over. -/
theorem Literal.split (h : Literal body text) : split (body ++ '"' :: rest) = some (body, rest) :=
  h.passes.stop rfl

/-- A backslash that escapes nothing is the last character, and no quote closes behind it. -/
theorem ne_slash_of_split {parts : List Char × List Char} (hslash : ∀ d ds, c = '\\' → cs = d :: ds → False)
    (h : split cs = some parts) : c ≠ '\\' := by
  rintro rfl
  cases cs with
  | nil => cases h
  | cons d ds => exact hslash d ds rfl rfl

/-- What a search splits a text at is a quote. -/
theorem append_of_split {after : List Char} (h : split cs = some (body, after)) : cs = body ++ '"' :: after := by
  fun_induction split cs generalizing body with
  | case1 => cases h
  | case2 rest =>
    cases h
    rfl
  | case3 c rest ih | case4 c rest _ _ ih =>
    obtain ⟨⟨inner, behind⟩, hsplit, heq⟩ := Option.map_eq_some_iff.1 h
    cases heq
    rw [ih hsplit]
    rfl

/-- What is in front of the quote that closes a text does not close it. -/
theorem passes_of_split {after : List Char} (h : split cs = some (body, after)) : Passes split body := by
  fun_induction split cs generalizing body with
  | case1 => cases h
  | case2 rest =>
    cases h
    exact .nil
  | case3 c rest ih =>
    obtain ⟨⟨inner, behind⟩, hsplit, heq⟩ := Option.map_eq_some_iff.1 h
    cases heq
    exact (passes_escape c).append (ih hsplit)
  | case4 c rest hquote hslash ih =>
    obtain ⟨⟨inner, behind⟩, hsplit, heq⟩ := Option.map_eq_some_iff.1 h
    cases heq
    have hpiece : Passes split [c] := fun rest' => split_plain hquote (ne_slash_of_split hslash hsplit)
    exact hpiece.append (ih hsplit)

/-- The quoted form of what was found in front of the closing quote. -/
theorem read?_of_split {after : List Char} (h : split cs = some (body, after)) :
    read? ('"' :: (body ++ ['"'])) = Quoted.decode body := by
  have hsplit : split (body ++ ['"']) = some (body, []) := (passes_of_split h).stop rfl
  rw [read?, hsplit]
  rfl

/-! ### Reading -/

theorem items?_plain (hc : ' ' ≤ c ∧ c ≠ '"' ∧ c ≠ '\\') :
    items? (c :: rest) = (items? rest).map (Item.char c :: ·) := by
  have hallowed : ¬ (c = '"' ∨ c = '\\' ∨ c < ' ') := by
    simp [hc.2.1, hc.2.2, Char.not_lt.2 hc.1]
  rw [items?]
  · simp only [hallowed, ↓reduceIte]
    cases items? rest <;> rfl
  all_goals simp_all

theorem items?_short (hc : shortEscape? e = some c) :
    items? ('\\' :: e :: rest) = (items? rest).map (Item.char c :: ·) := by
  rw [items?]
  · rw [hc]
    cases items? rest <;> rfl
  · rintro h₁ h₂ h₃ h₄ after rfl
    simp [shortEscape?] at hc

theorem items?_unit (hunit : hexUnit? a b c d = some value) :
    items? ('\\' :: 'u' :: a :: b :: c :: d :: rest) = (items? rest).map (Item.unit value :: ·) := by
  rw [items?, hunit]
  cases items? rest <;> rfl

/-- The code of a character is no half of a pair. -/
theorem not_surrogate (c : Char) : isHighSurrogate c.toNat = false ∧ isLowSurrogate c.toNat = false := by
  have hvalid : c.toNat < 0xD800 ∨ 0xDFFF < c.toNat ∧ c.toNat < 0x110000 := c.valid
  simp only [isHighSurrogate, isLowSurrogate, Bool.and_eq_false_iff, decide_eq_false_iff_not]
  omega

theorem join?_unit (hhigh : isHighSurrogate value = false) (hlow : isLowSurrogate value = false) :
    join? (.unit value :: items) = (join? items).map (Char.ofNat value :: ·) := by
  rcases items with _ | ⟨⟨⟩, items⟩ <;> simp [join?, hhigh, hlow]

theorem join?_pair (hhigh : isHighSurrogate high = true) (hlow : isLowSurrogate low = true) :
    join? (.unit high :: .unit low :: items) =
      (join? items).map (Char.ofNat (0x10000 + (high - 0xD800) * 0x400 + (low - 0xDC00)) :: ·) := by
  simp [join?, hhigh, hlow]

/-- Items in front of the others that stand for one character. -/
theorem decode_front (front : List Item) (hitems : items? body = (items? rest).map (front ++ ·))
    (hjoin : ∀ items, join? (front ++ items) = (join? items).map (c :: ·)) :
    decode body = (decode rest).map (c :: ·) := by
  unfold decode
  rw [hitems]
  cases items? rest with
  | none => rfl
  | some items => exact hjoin items

theorem decode_plain (hc : ' ' ≤ c ∧ c ≠ '"' ∧ c ≠ '\\') : decode (c :: body) = (decode body).map (c :: ·) :=
  decode_front [.char c] (items?_plain hc) fun _ => rfl

theorem decode_short (hc : shortEscape? e = some c) : decode ('\\' :: e :: body) = (decode body).map (c :: ·) :=
  decode_front [.char c] (items?_short hc) fun _ => rfl

theorem decode_unit {value : Nat} (hunit : hexUnit? a b c d = some value) (hhigh : isHighSurrogate value = false)
    (hlow : isLowSurrogate value = false) :
    decode ('\\' :: 'u' :: a :: b :: c :: d :: body) = (decode body).map (Char.ofNat value :: ·) :=
  decode_front [.unit value] (items?_unit hunit) fun _ => join?_unit hhigh hlow

theorem decode_pair {a' b' c' d' : Char} (hhigh : hexUnit? a b c d = some high)
    (hlow : hexUnit? a' b' c' d' = some low) (hhigh' : isHighSurrogate high = true)
    (hlow' : isLowSurrogate low = true) :
    decode ('\\' :: 'u' :: a :: b :: c :: d :: '\\' :: 'u' :: a' :: b' :: c' :: d' :: body) =
      (decode body).map (Char.ofNat (0x10000 + (high - 0xD800) * 0x400 + (low - 0xDC00)) :: ·) := by
  refine decode_front [.unit high, .unit low] ?_ fun _ => join?_pair hhigh' hlow'
  rw [items?_unit hhigh, items?_unit hlow, Option.map_map]
  rfl

/-- A literal is read as the text that it writes. -/
theorem Literal.decode (h : Literal body text) : decode body = some text := by
  induction h with
  | nil => rfl
  | plain hc _ ih => rw [decode_plain hc, ih, Option.map_some]
  | short he _ ih => rw [decode_short he, ih, Option.map_some]
  | @unit c h₁ h₂ h₃ h₄ body text hunit _ ih =>
    rw [decode_unit hunit (not_surrogate c).1 (not_surrogate c).2, ih, Option.map_some, Char.ofNat_toNat]
  | @pair c h₁ h₂ h₃ h₄ l₁ l₂ l₃ l₄ body text hc hhigh hlow _ ih =>
    have hvalid : c.toNat < 0xD800 ∨ 0xDFFF < c.toNat ∧ c.toNat < 0x110000 := c.valid
    have hcode : 0x10000 + (0xD800 + (c.toNat - 0x10000) / 0x400 - 0xD800) * 0x400 +
        (0xDC00 + (c.toNat - 0x10000) % 0x400 - 0xDC00) = c.toNat := by omega
    rw [decode_pair hhigh hlow, ih, Option.map_some, hcode, Char.ofNat_toNat]
    · simp only [isHighSurrogate, Bool.and_eq_true, decide_eq_true_eq]
      omega
    · simp only [isLowSurrogate, Bool.and_eq_true, decide_eq_true_eq]
      omega

/-! ### All that can be read -/

/-- The items that a text is written as, which may be halves of pairs. -/
inductive Spells : List Char → List Item → Prop
  | nil : Spells [] []
  | plain {c : Char} {rest : List Char} {items : List Item} (hc : ' ' ≤ c ∧ c ≠ '"' ∧ c ≠ '\\')
    (h : Spells rest items) : Spells (c :: rest) (.char c :: items)
  | short {c e : Char} {rest : List Char} {items : List Item} (he : shortEscape? e = some c)
    (h : Spells rest items) : Spells ('\\' :: e :: rest) (.char c :: items)
  | unit {h₁ h₂ h₃ h₄ : Char} {value : Nat} {rest : List Char} {items : List Item}
    (hunit : hexUnit? h₁ h₂ h₃ h₄ = some value) (h : Spells rest items) :
    Spells ('\\' :: 'u' :: h₁ :: h₂ :: h₃ :: h₄ :: rest) (.unit value :: items)

theorem spells_of_items? (h : items? cs = some items) : Spells cs items := by
  fun_induction items? cs generalizing items with
  | case1 =>
    cases h
    exact .nil
  | case2 h₁ h₂ h₃ h₄ rest ih =>
    obtain ⟨value, hunit, h⟩ := Option.bind_eq_some_iff.1 h
    obtain ⟨after, hafter, h⟩ := Option.bind_eq_some_iff.1 h
    cases h
    exact .unit hunit (ih hafter)
  | case3 e rest _ ih =>
    obtain ⟨c, he, h⟩ := Option.bind_eq_some_iff.1 h
    obtain ⟨after, hafter, h⟩ := Option.bind_eq_some_iff.1 h
    cases h
    exact .short he (ih hafter)
  | case4 => cases h
  | case5 c rest _ _ _ hplain =>
    rename_i ih
    obtain ⟨after, hafter, h⟩ := Option.bind_eq_some_iff.1 h
    cases h
    rw [not_or, not_or, Char.not_lt] at hplain
    exact .plain ⟨hplain.2.2, hplain.1, hplain.2.1⟩ (ih hafter)

theorem toNat_ofNat (hvalid : value.isValidChar) : (Char.ofNat value).toNat = value := by
  rw [Char.ofNat, dif_pos hvalid]
  rfl

/-- A unit that is no half of a pair is the code of a character. -/
theorem toNat_of_not_surrogate (hlt : value < 0x10000) (hhigh : isHighSurrogate value = false)
    (hlow : isLowSurrogate value = false) : (Char.ofNat value).toNat = value := by
  simp only [isHighSurrogate, isLowSurrogate, Bool.and_eq_false_iff, decide_eq_false_iff_not] at hhigh hlow
  refine toNat_ofNat ?_
  unfold Nat.isValidChar
  omega

/-- The two halves of a pair are found in the code of the character that they stand for. -/
theorem halves_of_pair (hhigh : isHighSurrogate high = true) (hlow : isLowSurrogate low = true) :
    ∃ c : Char, c = Char.ofNat (0x10000 + (high - 0xD800) * 0x400 + (low - 0xDC00)) ∧ 0x10000 ≤ c.toNat ∧
      0xD800 + (c.toNat - 0x10000) / 0x400 = high ∧ 0xDC00 + (c.toNat - 0x10000) % 0x400 = low := by
  simp only [isHighSurrogate, isLowSurrogate, Bool.and_eq_true, decide_eq_true_eq] at hhigh hlow
  have hvalid : (0x10000 + (high - 0xD800) * 0x400 + (low - 0xDC00)).isValidChar := by
    unfold Nat.isValidChar
    omega
  refine ⟨_, rfl, ?_⟩
  rw [toNat_ofNat hvalid]
  omega

/-- A unit that stands for a character by itself. -/
theorem Spells.literal_unit (h : Spells cs (.unit value :: items)) (hhigh : isHighSurrogate value = false)
    (hlow : isLowSurrogate value = false) (hrest : ∀ {rest : List Char}, Spells rest items → Literal rest text) :
    Literal cs (Char.ofNat value :: text) := by
  cases h with
  | unit hunit h =>
    have hcode := toNat_of_not_surrogate (hexUnit?_lt hunit) hhigh hlow
    exact .unit (hunit.trans (congrArg some hcode.symm)) (hrest h)

theorem Spells.literal (h : Spells cs items) (hjoin : join? items = some text) : Literal cs text := by
  fun_induction join? items generalizing cs text with
  | case1 =>
    cases h
    cases hjoin
    exact .nil
  | case2 c rest ih =>
    obtain ⟨after, hafter, rfl⟩ := Option.map_eq_some_iff.1 hjoin
    cases h with
    | plain hc h => exact .plain hc (ih h hafter)
    | short he h => exact .short he (ih h hafter)
  | case3 high low rest hhigh hlow ih =>
    obtain ⟨after, hafter, rfl⟩ := Option.map_eq_some_iff.1 hjoin
    obtain ⟨c, hc, hlarge, hhalf, hhalf'⟩ := halves_of_pair hhigh hlow
    rw [← hc]
    cases h with
    | unit hunit h =>
      cases h with
      | unit hunit' h =>
        rw [← hhalf] at hunit
        rw [← hhalf'] at hunit'
        exact .pair hlarge hunit hunit' (ih h hafter)
  | case4 | case5 | case7 => cases hjoin
  | case6 value next rest hhigh hlow ih =>
    obtain ⟨after, hafter, rfl⟩ := Option.map_eq_some_iff.1 hjoin
    exact h.literal_unit (by simpa using hhigh) (by simpa using hlow) fun h => ih h hafter
  | case8 value rest _ hcode ih =>
    obtain ⟨after, hafter, rfl⟩ := Option.map_eq_some_iff.1 hjoin
    rw [Bool.or_eq_true, not_or, Bool.not_eq_true, Bool.not_eq_true] at hcode
    exact h.literal_unit hcode.1 hcode.2 fun h => ih h hafter

/-- Literals are what can be read, and they stand for what is read. -/
theorem decode_eq_some_iff : Quoted.decode body = some text ↔ Literal body text := by
  refine ⟨fun h => ?_, Literal.decode⟩
  obtain ⟨items, hitems, hjoin⟩ := Option.bind_eq_some_iff.1 h
  exact (spells_of_items? hitems).literal hjoin

end FluentChain.Text.Quoted
