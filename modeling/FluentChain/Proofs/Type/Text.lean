import FluentChain.Proofs.Text.Padded
import FluentChain.Proofs.Text.Search
import FluentChain.Proofs.Type.Reading

/-!
# The text of a type, read again

What is read from a text can be written so that it is read again as the same (`parse_text`): no name holds a blank
or a bracket, so nothing is trimmed off, and the key of a map ends at the bracket that closes it.  Reading the text
of a type where the type is known already finds the type and adds nothing (`resolve_of_denotes`).
-/

namespace FluentChain

namespace Text

/-- Two lists of ranges of which any two are apart have no character in common. -/
theorem inRanges_eq_false {as bs : List (Nat × Nat)}
    (hapart : (bs.all fun b => as.all fun a => Nat.blt a.2 b.1 || Nat.blt b.2 a.1) = true) {code : Nat}
    (h : inRanges as code = true) : inRanges bs code = false := by
  obtain ⟨a, ha, hlow, hhigh⟩ := inRanges_iff.1 h
  rw [← Bool.not_eq_true, inRanges_iff]
  rintro ⟨b, hb, hlow', hhigh'⟩
  have hab := List.all_eq_true.1 (List.all_eq_true.1 hapart b hb) a ha
  rw [Bool.or_eq_true, Nat.blt_eq, Nat.blt_eq] at hab
  omega

theorem inRanges_of_subset {as bs : List (Nat × Nat)} (hsubset : as ⊆ bs) {code : Nat} (h : inRanges as code = true) :
    inRanges bs code = true := by
  obtain ⟨r, hr, hcode⟩ := inRanges_iff.1 h
  exact inRanges_iff.2 ⟨r, hsubset hr, hcode⟩

end Text

namespace TypeExpr

/-- The shape stands in a text: its names are predeclared or can be declared. -/
def IsWritten : TypeExpr → Prop
  | .pointer elem | .slice elem | .array elem => elem.IsWritten
  | .map key value => key.IsWritten ∧ value.IsWritten
  | .interface => True
  | .basic name => name ∈ predeclared
  | .declared name => isQualified name.toList = true ∧ name ∉ predeclared ∧ name ≠ "any"
  | .malformed .. => False

/-! ### Names -/

theorem isNameChar_of_isNameStart {c : Char} (h : isNameStart c = true) : isNameChar c = true := by
  unfold isNameStart at h
  unfold isNameChar
  rcases Bool.or_eq_true_iff.1 h with h | h <;> simp [h]

/-- Blanks, and the characters that stand for something else in a type expression. -/
def specialRanges : List (Nat × Nat) :=
  (0x2A, 0x2A) :: (0x5B, 0x5B) :: (0x5D, 0x5D) :: (0x7B, 0x7B) :: Text.blankRanges

def isSpecial (c : Char) : Bool := Text.inRanges specialRanges c.toNat

/-- What stands in a name has no other meaning in a type. -/
theorem isSpecial_of_isNameChar {c : Char} (h : isNameChar c = true) : isSpecial c = false := by
  unfold isNameChar at h
  rcases Bool.or_eq_true_iff.1 h with h | h
  · rcases Bool.or_eq_true_iff.1 h with h | h
    · exact Text.inRanges_eq_false (by decide +kernel) h
    · exact Text.inRanges_eq_false (by decide +kernel) h
  · rw [eq_of_beq h]
    decide

/-- A blank is special, so it stands in no name. -/
theorem isBlank_of_isSpecial {c : Char} (h : isSpecial c = false) : Text.isBlank c = false := by
  rw [← Bool.not_eq_true] at h ⊢
  exact fun hblank => h (Text.inRanges_of_subset (fun r hr => by simp [specialRanges, hr]) hblank)

theorem isBlank_of_isLengthChar {c : Char} (h : isLengthChar c = true) : Text.isBlank c = false := by
  unfold isLengthChar at h
  rcases Bool.or_eq_true_iff.1 h with h | h
  · exact Text.isBlank_of_isDigit h
  · rw [eq_of_beq h]
    decide

theorem not_bracket_of_isLengthChar {c : Char} (h : isLengthChar c = true) : c ≠ '[' ∧ c ≠ ']' := by
  refine ⟨?_, ?_⟩
  all_goals
    rintro rfl
    exact absurd h (by decide)

/-- An identifier is made of what may stand in a name. -/
theorem isNameChar_of_isIdentifier {cs : List Char} (h : isIdentifier cs = true) : ∀ c ∈ cs, isNameChar c = true := by
  cases cs with
  | nil => simp
  | cons d cs =>
    unfold isIdentifier at h
    obtain ⟨hstart, hrest⟩ := Bool.and_eq_true_iff.1 h
    intro c hc
    rcases List.mem_cons.1 hc with rfl | hc
    · exact isNameChar_of_isNameStart hstart
    · exact List.all_eq_true.1 hrest c hc

theorem mem_intercalate {c d : Char} {parts : List (List Char)} (h : c ∈ [d].intercalate parts) :
    c = d ∨ ∃ part ∈ parts, c ∈ part := by
  induction parts with
  | nil => simp at h
  | cons part parts ih =>
    cases parts with
    | nil => exact Or.inr ⟨part, by simpa using h⟩
    | cons next parts =>
      rw [List.intercalate_cons_cons, List.mem_append, List.mem_append, List.mem_singleton] at h
      rcases h with (h | h) | h
      · exact Or.inr ⟨part, by simp, h⟩
      · exact Or.inl h
      · rcases ih h with h | ⟨other, hother, h⟩
        · exact Or.inl h
        · exact Or.inr ⟨other, List.mem_cons_of_mem part hother, h⟩

/-- A qualified name is made of name characters and dots. -/
theorem isNameChar_of_isQualified {cs : List Char} (h : isQualified cs = true) :
    ∀ c ∈ cs, c = '.' ∨ isNameChar c = true := by
  intro c hc
  have hjoin : ['.'].intercalate (cs.splitOn '.') = cs := List.intercalate_splitOn '.'
  rw [← hjoin] at hc
  refine (mem_intercalate hc).imp_right ?_
  rintro ⟨part, hpart, hc⟩
  exact isNameChar_of_isIdentifier (List.all_eq_true.1 h part hpart) c hc

theorem ne_nil_of_isQualified {cs : List Char} (h : isQualified cs = true) : cs ≠ [] := by
  rintro rfl
  simp [isQualified, isIdentifier] at h

/-- No special character stands in a name. -/
theorem isSpecial_of_isQualified {cs : List Char} (h : isQualified cs = true) : ∀ c ∈ cs, isSpecial c = false := by
  intro c hc
  rcases isNameChar_of_isQualified h c hc with rfl | hname
  · decide
  · exact isSpecial_of_isNameChar hname

/-- No bracket and no star stands in a qualified name, so where one stands no name does. -/
theorem ne_of_isQualified {cs : List Char} (h : isQualified cs = true) : ∀ c ∈ cs, c ≠ '*' ∧ c ≠ '[' ∧ c ≠ ']' := by
  intro c hc
  have hspecial := isSpecial_of_isQualified h c hc
  refine ⟨?_, ?_, ?_⟩
  all_goals
    rintro rfl
    exact absurd hspecial (by decide)

/-- The name has small letters and digits only, and begins with a letter. -/
def isPlainName : List Char → Bool
  | [] => false
  | c :: rest =>
    Text.inRanges [(0x61, 0x7A)] c.toNat && rest.all fun c => Text.inRanges [(0x61, 0x7A), (0x30, 0x39)] c.toNat

theorem isNameStart_of_small {c : Char} (h : Text.inRanges [(0x61, 0x7A)] c.toNat = true) : isNameStart c = true := by
  have hletter : [(0x61, 0x7A)] ⊆ Text.letterRanges := List.cons_subset.2 ⟨.tail _ (.head _), List.nil_subset _⟩
  exact Bool.or_eq_true_iff.2 (Or.inl (Text.inRanges_of_subset hletter h))

theorem isNameChar_of_small_or_digit {c : Char} (h : Text.inRanges [(0x61, 0x7A), (0x30, 0x39)] c.toNat = true) :
    isNameChar c = true := by
  have hnumeral : [(0x30, 0x39)] ⊆ Text.numeralRanges := List.cons_subset.2 ⟨.head _, List.nil_subset _⟩
  rcases Bool.or_eq_true_iff.1 h with h | h
  · exact isNameChar_of_isNameStart (isNameStart_of_small (Bool.or_eq_true_iff.2 (Or.inl h)))
  · exact Bool.or_eq_true_iff.2 (Or.inl (Bool.or_eq_true_iff.2 (Or.inr (Text.inRanges_of_subset hnumeral h))))

theorem isIdentifier_of_isPlainName {cs : List Char} (h : isPlainName cs = true) : isIdentifier cs = true := by
  cases cs with
  | nil => cases h
  | cons c rest =>
    obtain ⟨hc, hrest⟩ := Bool.and_eq_true_iff.1 h
    refine Bool.and_eq_true_iff.2 ⟨isNameStart_of_small hc, List.all_eq_true.2 fun d hd => ?_⟩
    exact isNameChar_of_small_or_digit (List.all_eq_true.1 hrest d hd)

theorem isQualified_of_mem_predeclared : ∀ name ∈ predeclared, isQualified name.toList = true := by
  have hplain : ∀ name ∈ predeclared, ((name.toList.splitOn '.').all isPlainName) = true := by decide +kernel
  exact fun name hname => List.all_eq_true.2 fun part hpart =>
    isIdentifier_of_isPlainName (List.all_eq_true.1 (hplain name hname) part hpart)

/-! ### Brackets -/

section

variable {depth : Nat} {c : Char} {cs ds rest : List Char}

/-- A bracket that opens is one more to be closed. -/
theorem splitBracket?_open :
    splitBracket? depth ('[' :: rest) = (splitBracket? (depth + 1) rest).map (Prod.map ('[' :: ·) id) := by
  rw [splitBracket?]
  rfl

/-- A bracket that closes is one less to be closed. -/
theorem splitBracket?_close :
    splitBracket? (depth + 1) (']' :: rest) = (splitBracket? depth rest).map (Prod.map (']' :: ·) id) := by
  rw [splitBracket?]
  rfl

/-- What is no bracket is passed over. -/
theorem splitBracket?_plain (hopen : c ≠ '[') (hclose : c ≠ ']') :
    splitBracket? depth (c :: rest) = (splitBracket? depth rest).map (Prod.map (c :: ·) id) := by
  rw [splitBracket?]
  · rfl
  all_goals simp_all

/-- Every bracket of the text is closed in it, so the search for a closing bracket passes over it. -/
def Balanced (cs : List Char) : Prop :=
  ∀ depth rest, splitBracket? depth (cs ++ rest) = (splitBracket? depth rest).map (Prod.map (cs ++ ·) id)

theorem balanced_nil : Balanced [] := fun _ => Text.Passes.nil

/-- Balanced texts stay balanced one after another. -/
theorem Balanced.append (h : Balanced cs) (h' : Balanced ds) : Balanced (cs ++ ds) := fun depth =>
  Text.Passes.append (h depth) (h' depth)

theorem Balanced.plain (h : ∀ c ∈ cs, c ≠ '[' ∧ c ≠ ']') : Balanced cs := fun _ =>
  Text.Passes.of_forall fun c hc _ => splitBracket?_plain (h c hc).1 (h c hc).2

/-- A balanced text stays balanced between brackets. -/
theorem Balanced.bracket (h : Balanced cs) : Balanced ('[' :: (cs ++ [']'])) := by
  intro depth rest
  rw [List.cons_append, splitBracket?_open, List.append_assoc, h, List.singleton_append, splitBracket?_close,
    Option.map_map, Option.map_map]
  refine congrArg (Option.map · _) (funext fun ⟨inner, after⟩ => ?_)
  simp

/-- The search ends behind a balanced text. -/
theorem Balanced.split (h : Balanced cs) : splitBracket? 0 (cs ++ ']' :: rest) = some (cs, rest) :=
  Text.Passes.stop (h 0) rfl

end

/-! ### Written shapes -/

theorem toList_text_pointer (e : TypeExpr) : (TypeExpr.pointer e).text.toList = '*' :: e.text.toList := by
  simp [text]

theorem toList_text_slice (e : TypeExpr) : (TypeExpr.slice e).text.toList = '[' :: ']' :: e.text.toList := by
  simp [text]

theorem toList_text_array (e : TypeExpr) :
    (TypeExpr.array e).text.toList = '[' :: (['_'] ++ ']' :: e.text.toList) := by
  simp [text]

theorem toList_text_interface :
    TypeExpr.interface.text.toList = ['i', 'n', 't', 'e', 'r', 'f', 'a', 'c', 'e', '\x7b', '\x7d'] := by
  simp [text]

theorem toList_text_map (k v : TypeExpr) :
    (TypeExpr.map k v).text.toList = 'm' :: 'a' :: 'p' :: '[' :: (k.text.toList ++ ']' :: v.text.toList) := by
  simp [text]

/-- The text of a type is balanced, so the key of a map ends where its text does. -/
theorem balanced_text {e : TypeExpr} (h : e.IsWritten) : Balanced e.text.toList := by
  have hplain : ∀ cs : List Char, (∀ c ∈ cs, c ≠ '[' ∧ c ≠ ']') → Balanced cs := fun _ => .plain
  have hname : ∀ {cs : List Char}, isQualified cs = true → Balanced cs := fun hcs =>
    .plain fun c hc => (ne_of_isQualified hcs c hc).2
  induction e with
  | pointer elem ih =>
    rw [toList_text_pointer]
    exact (hplain ['*'] (by simp)).append (ih h)
  | slice elem ih =>
    rw [toList_text_slice]
    exact balanced_nil.bracket.append (ih h)
  | array elem ih =>
    rw [toList_text_array]
    exact (hplain ['_'] (by simp)).bracket.append (ih h)
  | map key value ihk ihv =>
    rw [toList_text_map]
    have hkey := (ihk h.1).bracket.append (ihv h.2)
    simpa using (hplain ['m', 'a', 'p'] (by simp)).append hkey
  | interface =>
    rw [toList_text_interface]
    exact .plain (by simp)
  | basic name => exact hname (isQualified_of_mem_predeclared name h)
  | declared name => exact hname h.1
  | malformed => exact h.elim

/-- No blank stands in the text of a type, so nothing of it is trimmed off. -/
theorem isBlank_of_mem_text {e : TypeExpr} (h : e.IsWritten) : ∀ c ∈ e.text.toList, Text.isBlank c = false := by
  have hname : ∀ {cs : List Char}, isQualified cs = true → ∀ c ∈ cs, Text.isBlank c = false := fun hcs c hc =>
    isBlank_of_isSpecial (isSpecial_of_isQualified hcs c hc)
  induction e with
  | pointer elem ih =>
    rw [toList_text_pointer, List.forall_mem_cons]
    exact ⟨by decide, ih h⟩
  | slice elem ih =>
    rw [toList_text_slice, List.forall_mem_cons, List.forall_mem_cons]
    exact ⟨by decide, by decide, ih h⟩
  | array elem ih =>
    rw [toList_text_array, List.singleton_append]
    simp only [List.forall_mem_cons]
    exact ⟨by decide, by decide, by decide, ih h⟩
  | map key value ihk ihv =>
    rw [toList_text_map]
    simp only [List.forall_mem_cons, List.forall_mem_append]
    exact ⟨by decide, by decide, by decide, by decide, ihk h.1, by decide, ihv h.2⟩
  | interface =>
    have hclear : (TypeExpr.interface.text.toList.all fun c => !Text.isBlank c) = true := by
      rw [toList_text_interface]
      decide
    exact fun c hc => by simpa using List.all_eq_true.1 hclear c hc
  | basic name => exact hname (isQualified_of_mem_predeclared name h)
  | declared name => exact hname h.1
  | malformed => exact h.elim

/-! ### Reading -/

section

variable {whole rest key value text : List Char}

theorem parse_pointer (h : Text.trim whole = '*' :: rest) : parse whole = .pointer (parse rest) := by
  rw [parse]
  split <;> simp_all

theorem parse_slice (h : Text.trim whole = '[' :: ']' :: rest) : parse whole = .slice (parse rest) := by
  rw [parse]
  split <;> simp_all

/-- The key of a map ends at the bracket that splits the text, and its value is what follows. -/
theorem parse_map (h : Text.trim whole = 'm' :: 'a' :: 'p' :: '[' :: rest)
    (hsplit : splitBracket? 0 rest = some (key, value)) : parse whole = .map (parse key) (parse value) := by
  rw [parse]
  split
  case h_4 rest' heq =>
    cases h.symm.trans heq
    split <;> simp_all
  all_goals simp_all

/-- An array has a length in its brackets, which is read and forgotten. -/
theorem parse_array (h : Text.trim whole = '[' :: rest) (hsplit : splitBracket? 0 rest = some (key, value))
    (hlength : Text.trim key ≠ [] ∧ (Text.trim key).all isLengthChar = true) :
    parse whole = .array (parse value) := by
  rw [parse]
  split
  case h_3 rest' heq =>
    -- an empty length is no length
    cases h.symm.trans heq
    simp only [splitBracket?, Option.some.injEq, Prod.mk.injEq] at hsplit
    exact absurd (hsplit.1 ▸ rfl) hlength.1
  case h_5 rest' hne heq =>
    cases h.symm.trans heq
    split
    · simp_all
    · rename_i hs
      cases hsplit.symm.trans hs
      exact if_pos hlength
  all_goals simp_all

/-- A text that starts with no other mark is read as a name. -/
theorem parse_name (h : Text.trim whole = text) (hne : text ≠ []) (hplain : ∀ c ∈ text, c ≠ '*' ∧ c ≠ '[') :
    parse whole = nameShape whole text := by
  rw [parse]
  split
  case h_1 heq => exact absurd (h.symm.trans heq) hne
  case h_2 rest' heq => exact absurd rfl (hplain '*' (by simp [← h, heq])).1
  case h_3 rest' heq => exact absurd rfl (hplain '[' (by simp [← h, heq])).2
  case h_4 rest' heq => exact absurd rfl (hplain '[' (by simp [← h, heq])).2
  case h_5 rest' _ heq => exact absurd rfl (hplain '[' (by simp [← h, heq])).2
  case h_6 => rw [← h]

/-- An array type is read alike whatever its length is. -/
theorem parse_array_length {length elem : List Char} (hne : length ≠ []) (hlength : length.all isLengthChar = true) :
    parse ('[' :: (length ++ ']' :: elem)) = .array (parse (Text.trimEnd elem)) := by
  have hplain : ∀ c ∈ length, c ≠ '[' ∧ c ≠ ']' := fun c hc =>
    not_bracket_of_isLengthChar (List.all_eq_true.1 hlength c hc)
  have htrim : Text.trim ('[' :: (length ++ ']' :: elem)) = '[' :: (length ++ ']' :: Text.trimEnd elem) :=
    Text.trimEnd_append_cons (by decide) ('[' :: length) elem
  have hwhole : Text.trim length = length := Text.trim_eq_self fun c hc =>
    isBlank_of_isLengthChar (List.all_eq_true.1 hlength c hc)
  exact parse_array htrim (Balanced.plain hplain).split (by rw [hwhole]; exact ⟨hne, hlength⟩)

end

theorem nameShape_of_mem_predeclared {name : String} (h : name ∈ predeclared) (whole : List Char) :
    nameShape whole name.toList = .basic name := by
  have hnot : ∀ name ∈ predeclared, ¬ (name = "interface\x7b\x7d" ∨ name = "any") := by simp [predeclared]
  unfold nameShape
  simp only [String.ofList_toList]
  rw [if_neg (hnot name h), if_pos h]

/-- A qualified name that is not predeclared stands for the type declared under it. -/
theorem nameShape_of_isQualified {name : String} (h : isQualified name.toList = true) (hnew : name ∉ predeclared)
    (hany : name ≠ "any") (whole : List Char) : nameShape whole name.toList = .declared name := by
  have hnot : ¬ (name = "interface\x7b\x7d" ∨ name = "any") := by
    rintro (rfl | rfl)
    · exact absurd (isSpecial_of_isQualified h '\x7b' (by simp)) (by decide)
    · exact hany rfl
  unfold nameShape
  simp only [String.ofList_toList]
  rw [if_neg hnot, if_neg hnew, if_pos h]

/-- What is written is read again as it was. -/
theorem parse_text {e : TypeExpr} (h : e.IsWritten) : parse e.text.toList = e := by
  have htrim : Text.trim e.text.toList = e.text.toList := Text.trim_eq_self (isBlank_of_mem_text h)
  have hplain : ∀ {cs : List Char}, isQualified cs = true → ∀ c ∈ cs, c ≠ '*' ∧ c ≠ '[' := fun hcs c hc =>
    ⟨(ne_of_isQualified hcs c hc).1, (ne_of_isQualified hcs c hc).2.1⟩
  induction e with
  | pointer elem ih =>
    rw [parse_pointer (htrim.trans (toList_text_pointer elem)), ih h (Text.trim_eq_self (isBlank_of_mem_text h))]
  | slice elem ih =>
    rw [parse_slice (htrim.trans (toList_text_slice elem)), ih h (Text.trim_eq_self (isBlank_of_mem_text h))]
  | array elem ih =>
    have hlength : Balanced ['_'] := .plain (by simp)
    rw [parse_array (htrim.trans (toList_text_array elem)) hlength.split (by decide),
      ih h (Text.trim_eq_self (isBlank_of_mem_text h))]
  | map key value ihk ihv =>
    rw [parse_map (htrim.trans (toList_text_map key value)) (balanced_text h.1).split,
      ihk h.1 (Text.trim_eq_self (isBlank_of_mem_text h.1)), ihv h.2 (Text.trim_eq_self (isBlank_of_mem_text h.2))]
  | interface =>
    rw [parse_name htrim (by simp [text]) (by simp [text])]
    simp [text, nameShape]
  | basic name =>
    have hname := isQualified_of_mem_predeclared name h
    rw [parse_name htrim (ne_nil_of_isQualified hname) (hplain hname)]
    exact nameShape_of_mem_predeclared h _
  | declared name =>
    rw [parse_name htrim (ne_nil_of_isQualified h.1) (hplain h.1)]
    exact nameShape_of_isQualified h.1 h.2.1 h.2.2 _
  | malformed => exact h.elim

theorem isWritten_nameShape {declared : List String} {whole text : List Char}
    (h : (nameShape whole text).Known declared) : (nameShape whole text).IsWritten := by
  unfold nameShape at h ⊢
  dsimp only at h ⊢
  split
  · trivial
  · split
    · assumption
    · split
      · rename_i hnot hnew hqualified
        refine ⟨by rwa [String.toList_ofList], hnew, fun hany => hnot (Or.inr hany)⟩
      · simp_all [Known]

/-- What is read without a flaw could have been written. -/
theorem isWritten_parse {declared : List String} {cs : List Char} (h : (parse cs).Known declared) :
    (parse cs).IsWritten := by
  fun_induction parse cs with
  | case1 | case4 | case6 | case8 => exact h.elim
  | case2 _ _ _ ih | case3 _ _ _ ih => exact ih h
  | case5 _ _ _ _ _ _ ihk ihv => exact ⟨ihk h.1, ihv h.2⟩
  | case7 =>
    rename_i ih
    exact ih h
  | case9 => exact isWritten_nameShape h

end TypeExpr

namespace TypeTable

variable {t u : TypeTable} {id : TypeId} {e : TypeExpr}

/-- To intern a type that the table has gives its index and adds nothing. -/
theorem intern_of_get? (ht : t.WellFormed) {ty : Ty} (hty : ty.IsShared) (hid : t.get? id = some ty) :
    t.intern ty = (id, t) := by
  unfold intern
  rw [(find?_eq_some_iff ht hty).2 hid]

/-- Reading a type that the table has finds it and adds nothing. -/
theorem resolve_of_denotes (ht : t.WellFormed) (h : t.Denotes e id) : e.resolve t = .ok id t := by
  have hintern : ∀ {ty : Ty} {id : TypeId}, ty.IsShared → t.get? id = some ty →
      (modifyGet (·.intern ty) : EStateM TypeExprError TypeTable TypeId) t = .ok id t := by
    intro ty id hty hid
    show EStateM.Result.ok (t.intern ty).1 (t.intern ty).2 = _
    rw [intern_of_get? ht hty hid]
  induction h with
  | pointer hid _ ih | slice hid _ ih | array hid _ ih =>
    rw [TypeExpr.resolve, bind_of_ok ih]
    exact hintern trivial hid
  | map hid _ _ ihk ihv =>
    rw [TypeExpr.resolve, bind_of_ok ihk, bind_of_ok ihv]
    exact hintern trivial hid
  | interface hid | basic hid => exact hintern trivial hid
  | declared hid =>
    rw [TypeExpr.resolve, get_bind, (named?_eq_some_iff ht).2 (.declared hid)]
    rfl

/-- What reading a text leads to. -/
structure Reads (t : TypeTable) (e : TypeExpr) (id : TypeId) (u : TypeTable) : Prop where
  written : e.IsWritten
  wellFormed : u.WellFormed
  growsTo : t.GrowsTo u
  denotes : u.Denotes e id

/-- Reading a text adds its type where the table did not have it. -/
theorem reads_of_parse (ht : t.WellFormed) {text : String} (hrun : TypeTable.parse text t = .ok id u) :
    t.Reads (TypeExpr.parse text.toList) id u := by
  obtain ⟨declared, hdeclares⟩ := exists_declares t
  obtain ⟨hknown, hgrown, hid⟩ := (decides_resolve _ t []).of_ok (.refl ht hdeclares) hrun
  exact ⟨TypeExpr.isWritten_parse hknown, hgrown.wellFormed, hgrown.old.growsTo, hid⟩

/-- In every later table the text of a type that was read is read as the type again, and adds nothing. -/
theorem Reads.parse_display (h : t.Reads e id u) {v : TypeTable} (hv : v.WellFormed) (hgrow : u.GrowsTo v) :
    v.display id = e.text ∧ TypeTable.parse (v.display id) v = .ok id v := by
  have hid := h.denotes.mono hgrow
  refine ⟨hid.display_eq hv, ?_⟩
  rw [hid.display_eq hv, TypeTable.parse, TypeExpr.parse_text h.written]
  exact resolve_of_denotes hv hid

end TypeTable

end FluentChain
