import FluentChain.Proofs.Related
import FluentChain.Proofs.Text.Offset
import FluentChain.Proofs.Text.Quoted
import FluentChain.Record.Tag

/-!
# Scanning tags by offsets

`Tag.scan` looks a name up in a tag by offsets into what is left of it.  The closing quote of a value is looked for from
byte to byte (`closing`): the byte behind a backslash is passed over, though it may be only the first of a character,
so that the search goes on inside the character.

A byte that looks like a quote is a quote, so the search comes out where a character ends (`bytesToQuote_of_split`).
Whatever the tag is, it is cut only where it can be, each entry that is passed over leaves a shorter rest, and the
answer is the one found character by character (`scan_safe`).
-/

namespace FluentChain.Tag

open FluentChain.Text

variable {bytes front : List UInt8} {c : Char} {cs body after : List Char} {tag rest key : String}

/-! ### Scanning -/

/-- The offset of the first quote from `i` on, where a backslash keeps the byte after it from closing.  An offset that
is not below the length says that there is none. -/
def closing (bytes : List UInt8) (i : Nat) : Nat :=
  if h : i < bytes.length then
    if bytes[i] = '"'.toUInt8 then i
    else if bytes[i] = '\\'.toUInt8 then closing bytes (i + 2)
    else closing bytes (i + 1)
  else i
termination_by bytes.length - i

/-- What the first entry of a tag leads to: an answer, or a search in the rest of the tag. -/
inductive Round
  | answer (value : Option String)
  | next (rest : String)
deriving DecidableEq, Repr

/-- Reads the value of the first entry, which the text begins with, and goes on behind it if the name is another. -/
def readValue (name value key : String) : Except BadOffset Round := do
  let quote := closing (bytesOf value) 1
  if value.utf8ByteSize ≤ quote then return .answer none
  let (quoted, rest) ← cut value (quote + 1)
  if name = key then return .answer ((Quoted.read? quoted.toList).map String.ofList)
  return .next rest

/-- One round of a search: the name of the first entry ends at `nameEnd`, and its value begins behind the colon
there. -/
def round (tag key : String) : Except BadOffset Round := do
  let entry := String.ofList (tag.toList.dropWhile (· == ' '))
  if entry = "" then return .answer none
  let nameEnd := (String.ofList (entry.toList.takeWhile (!endsName ·))).utf8ByteSize
  let (name, behind) ← cut entry nameEnd
  if nameEnd = 0 ∨ ¬ [':', '"'] <+: behind.toList then return .answer none
  let (_, value) ← cut entry (nameEnd + 1)
  readValue name value key

theorem size_of_readValue {name value : String} (h : readValue name value key = .ok (.next rest)) :
    rest.utf8ByteSize < value.utf8ByteSize := by
  unfold readValue at h
  dsimp only at h
  split at h
  · cases h
  obtain ⟨⟨quoted, behind⟩, hcut, h⟩ := except_bind_eq_ok.1 h
  dsimp only at h
  split at h
  · cases h
  · cases h
    have hsize := utf8ByteSize_of_cut hcut
    omega

/-- An entry that is passed over takes at least a byte. -/
theorem size_of_round (h : round tag key = .ok (.next rest)) : rest.utf8ByteSize < tag.utf8ByteSize := by
  unfold round at h
  dsimp only at h
  split at h
  · cases h
  obtain ⟨⟨name, behind⟩, -, h⟩ := except_bind_eq_ok.1 h
  dsimp only at h
  split at h
  · cases h
  obtain ⟨⟨front, value⟩, hcut, h⟩ := except_bind_eq_ok.1 h
  dsimp only at h
  have hentry := utf8ByteSize_dropWhile_le (· == ' ') tag
  have hvalue := utf8ByteSize_of_cut hcut
  have hrest := size_of_readValue h
  omega

/-- The value of the first entry with a name. -/
def scan (tag key : String) : Except BadOffset (Option String) :=
  match _h : round tag key with
  | .error e => .error e
  | .ok (.answer value) => .ok value
  | .ok (.next rest) => scan rest key
termination_by tag.utf8ByteSize
decreasing_by exact size_of_round _h

/-! ### The closing quote -/

/-- The number of bytes in front of the closing quote. -/
def bytesToQuote : List UInt8 → Nat
  | [] => 0
  | b :: rest =>
    if b = '"'.toUInt8 then 0
    else if b = '\\'.toUInt8 then bytesToQuote (rest.drop 1) + 2
    else bytesToQuote rest + 1
termination_by bytes => bytes.length

/-- The search from an offset on sees only the bytes behind it. -/
theorem closing_eq (bytes : List UInt8) (i : Nat) : closing bytes i = i + bytesToQuote (bytes.drop i) := by
  fun_induction closing bytes i with
  | case1 i hi hquote =>
    rw [List.drop_eq_getElem_cons hi, bytesToQuote, if_pos hquote, Nat.add_zero]
  | case2 i hi hquote hslash ih =>
    rw [ih, List.drop_eq_getElem_cons hi, bytesToQuote, if_neg hquote, if_pos hslash, List.drop_drop, Nat.add_assoc,
      Nat.add_comm 2]
  | case3 i hi hquote hslash ih =>
    rw [ih, List.drop_eq_getElem_cons hi, bytesToQuote, if_neg hquote, if_neg hslash]
    omega
  | case4 i hi =>
    rw [List.drop_eq_nil_of_le (Nat.le_of_not_lt hi), bytesToQuote, Nat.add_zero]

/-- Bytes that are neither quotes nor backslashes are passed over. -/
theorem bytesToQuote_append (h : ∀ b ∈ front, b ≠ '"'.toUInt8 ∧ b ≠ '\\'.toUInt8) :
    bytesToQuote (front ++ bytes) = front.length + bytesToQuote bytes := by
  induction front with
  | nil => exact (Nat.zero_add _).symm
  | cons b front ih =>
    obtain ⟨hquote, hslash⟩ := h b List.mem_cons_self
    rw [List.cons_append, bytesToQuote, if_neg hquote, if_neg hslash, ih fun b hb => h b (List.mem_cons_of_mem _ hb),
      List.length_cons]
    omega

theorem bytesToQuote_char (hquote : c ≠ '"') (hslash : c ≠ '\\') (bytes : List UInt8) :
    bytesToQuote (String.utf8EncodeChar c ++ bytes) = c.utf8Size + bytesToQuote bytes := by
  rw [← String.length_utf8EncodeChar]
  exact bytesToQuote_append fun b hb =>
    ⟨ne_of_mem_utf8EncodeChar (by decide) hquote hb, ne_of_mem_utf8EncodeChar (by decide) hslash hb⟩

/-- The search goes on inside the character behind a backslash, and passes over what is left of it. -/
theorem bytesToQuote_escape (c : Char) (bytes : List UInt8) :
    bytesToQuote ('\\'.toUInt8 :: (String.utf8EncodeChar c ++ bytes)) = 1 + (c.utf8Size + bytesToQuote bytes) := by
  obtain ⟨b, tail, hbytes⟩ := List.exists_cons_of_ne_nil (utf8EncodeChar_ne_nil c)
  have htail : ∀ b ∈ tail, b ≠ '"'.toUInt8 ∧ b ≠ '\\'.toUInt8 := by
    intro b hb
    have hmem : b ∈ String.utf8EncodeChar c := hbytes ▸ List.mem_cons_of_mem _ hb
    by_cases hascii : c.toNat < 0x80
    · rw [utf8EncodeChar_of_ascii hascii] at hbytes
      cases hbytes
      cases hb
    · have hhigh := le_of_mem_utf8EncodeChar (Nat.le_of_not_lt hascii) hmem
      refine ⟨?_, ?_⟩
      all_goals
        rintro rfl
        exact absurd hhigh (by decide)
  rw [bytesToQuote, if_neg (by decide), if_pos rfl, ← String.length_utf8EncodeChar, hbytes, List.cons_append,
    List.drop_one, List.tail_cons, bytesToQuote_append htail, List.length_cons]
  omega

theorem bytesToQuote_quote (bytes : List UInt8) : bytesToQuote (String.utf8EncodeChar '"' ++ bytes) = 0 := by
  rw [utf8EncodeChar_of_ascii (by decide), List.singleton_append, bytesToQuote, if_pos rfl]

/-- The closing quote is found where it is found among the characters. -/
theorem bytesToQuote_of_split (h : Quoted.split cs = some (body, after)) :
    bytesToQuote (bytesOf (String.ofList cs)) = (String.ofList body).utf8ByteSize := by
  fun_induction Quoted.split cs generalizing body with
  | case1 => cases h
  | case2 rest =>
    cases h
    rw [bytesOf_cons, bytesToQuote_quote]
    rfl
  | case3 c rest ih =>
    obtain ⟨⟨inner, behind⟩, hsplit, heq⟩ := Option.map_eq_some_iff.1 h
    cases heq
    rw [bytesOf_cons, bytesOf_cons, utf8EncodeChar_of_ascii (by decide), List.singleton_append]
    refine (bytesToQuote_escape c _).trans ?_
    rw [ih hsplit, utf8ByteSize_cons, utf8ByteSize_cons]
    rfl
  | case4 c rest hquote hslash ih =>
    obtain ⟨⟨inner, behind⟩, hsplit, heq⟩ := Option.map_eq_some_iff.1 h
    cases heq
    rw [bytesOf_cons, bytesToQuote_char hquote (Quoted.ne_slash_of_split hslash hsplit), ih hsplit, utf8ByteSize_cons]

theorem le_bytesToQuote_of_split (h : Quoted.split cs = none) :
    (String.ofList cs).utf8ByteSize ≤ bytesToQuote (bytesOf (String.ofList cs)) := by
  fun_induction Quoted.split cs with
  | case1 => exact Nat.zero_le _
  | case2 rest => cases h
  | case3 c rest ih =>
    have hle := ih (Option.map_eq_none_iff.1 h)
    rw [bytesOf_cons, bytesOf_cons, utf8EncodeChar_of_ascii (by decide), List.singleton_append, utf8ByteSize_cons,
      utf8ByteSize_cons]
    refine le_of_le_of_eq ?_ (bytesToQuote_escape c _).symm
    have hone : ('\\' : Char).utf8Size = 1 := by decide
    omega
  | case4 c rest hquote hslash ih =>
    have hle := ih (Option.map_eq_none_iff.1 h)
    rw [bytesOf_cons, utf8ByteSize_cons]
    by_cases hc : c = '\\'
    · -- the last character is a backslash, and the search leaves the text
      cases rest with
      | nil =>
        rw [hc, bytesOf_nil, utf8EncodeChar_of_ascii (by decide), List.singleton_append, bytesToQuote,
          if_neg (by decide), if_pos rfl]
        exact Nat.le_add_left _ _
      | cons d rest => exact absurd rfl (hslash d rest hc)
    · rw [bytesToQuote_char hquote hc]
      omega

/-! ### Rounds -/

/-- What the first entry leads to if its value is read character by character, from behind its opening quote. -/
def valueRound (name : String) (quoted : List Char) (key : String) : Round :=
  match Quoted.split quoted with
  | none => .answer none
  | some (body, after) =>
    if name = key then .answer ((Quoted.decode body).map String.ofList) else .next (String.ofList after)

/-- What a round leads to, character by character. -/
def roundOf (cs : List Char) (key : String) : Round :=
  let entry := cs.dropWhile (· == ' ')
  match entry.dropWhile (!endsName ·) with
  | ':' :: '"' :: quoted =>
    let name := entry.takeWhile (!endsName ·)
    if name = [] then .answer none else valueRound (String.ofList name) quoted key
  | _ => .answer none

/-- A tag that does not begin with a name in front of a quote has no entries. -/
theorem roundOf_of_ne (h : ∀ quoted, (cs.dropWhile (· == ' ')).dropWhile (!endsName ·) ≠ ':' :: '"' :: quoted) :
    roundOf cs key = .answer none := by
  unfold roundOf
  dsimp only
  split
  · rename_i quoted hentry
    exact absurd hentry (h quoted)
  · rfl

/-- A search character by character goes from round to round. -/
theorem lookup?_eq (cs : List Char) (key : String) :
    lookup? cs key = match roundOf cs key with
      | .answer value => value
      | .next rest => lookup? rest.toList key := by
  rw [lookup?]
  split
  · rename_i quoted hentry
    simp only [roundOf, hentry, valueRound]
    split
    · rfl
    · cases Quoted.split quoted with
      | none => rfl
      | some parts =>
        obtain ⟨body, after⟩ := parts
        dsimp only
        split
        · rfl
        · dsimp only
          rw [String.toList_ofList]
  · rename_i hnot
    rw [roundOf_of_ne hnot]

theorem readValue_eq (name : String) (quoted : List Char) (key : String) :
    readValue name (String.ofList ('"' :: quoted)) key = .ok (valueRound name quoted key) := by
  have hone : ('"' : Char).utf8Size = 1 := by decide
  have hquote : closing (bytesOf (String.ofList ('"' :: quoted))) 1 =
      1 + bytesToQuote (bytesOf (String.ofList quoted)) := by
    rw [closing_eq, bytesOf_cons, utf8EncodeChar_of_ascii (by decide)]
    rfl
  unfold readValue valueRound
  rw [hquote]
  cases hsplit : Quoted.split quoted with
  | none =>
    have hle := le_bytesToQuote_of_split hsplit
    rw [utf8ByteSize_cons, hone, if_pos (by omega)]
    rfl
  | some parts =>
    obtain ⟨body, after⟩ := parts
    obtain rfl := Quoted.append_of_split hsplit
    -- behind the closing quote the value can be cut
    have hcut : cut (String.ofList ('"' :: (body ++ '"' :: after))) (1 + (String.ofList body).utf8ByteSize + 1) =
        .ok (String.ofList ('"' :: (body ++ ['"'])), String.ofList after) := by
      refine cut_eq_ok_iff.2 ⟨?_, ?_⟩
      · rw [← String.ofList_append]
        simp
      · rw [utf8ByteSize_cons, utf8ByteSize_append_ascii (by decide), hone, Nat.add_assoc]
    have hlt : ¬ (String.ofList ('"' :: (body ++ '"' :: after))).utf8ByteSize ≤
        1 + (String.ofList body).utf8ByteSize := by
      have hsize := utf8ByteSize_of_cut hcut
      omega
    rw [bytesToQuote_of_split hsplit, if_neg hlt]
    refine except_bind_eq_ok.2 ⟨_, hcut, ?_⟩
    dsimp only
    rw [String.toList_ofList, Quoted.read?_of_split hsplit]
    split
    · rfl
    · rfl

/-- A round by offsets leads to what a round character by character leads to. -/
theorem round_eq (tag key : String) : round tag key = .ok (roundOf tag.toList key) := by
  obtain ⟨entry, hentry⟩ : ∃ entry, entry = tag.toList.dropWhile (· == ' ') := ⟨_, rfl⟩
  obtain ⟨name, hname⟩ : ∃ name, name = entry.takeWhile (!endsName ·) := ⟨_, rfl⟩
  obtain ⟨behind, hbehind⟩ : ∃ behind, behind = entry.dropWhile (!endsName ·) := ⟨_, rfl⟩
  have hparts : String.ofList entry = String.ofList name ++ String.ofList behind := by
    rw [← String.ofList_append, hname, hbehind, List.takeWhile_append_dropWhile]
  unfold round
  simp only [← hentry, String.toList_ofList, ← hname]
  by_cases hform : ∃ quoted, behind = ':' :: '"' :: quoted
  · obtain ⟨quoted, rfl⟩ := hform
    have hne : String.ofList entry ≠ "" := by
      rw [hparts]
      simp
    have hround : roundOf tag.toList key =
        if name = [] then .answer none else valueRound (String.ofList name) quoted key := by
      simp only [roundOf, ← hentry, ← hbehind, ← hname]
    -- a colon is one byte, so the entry can be cut behind it too
    have hcut : cut (String.ofList entry) ((String.ofList name).utf8ByteSize + 1) =
        .ok (String.ofList (name ++ [':']), String.ofList ('"' :: quoted)) := by
      refine cut_eq_ok_iff.2 ⟨?_, (utf8ByteSize_append_ascii (by decide) name).symm⟩
      rw [hparts, ← String.ofList_append, ← String.ofList_append]
      simp
    rw [if_neg hne, hround]
    refine except_bind_eq_ok.2 ⟨_, cut_eq_ok_iff.2 ⟨hparts, rfl⟩, ?_⟩
    dsimp only
    by_cases hempty : name = []
    · rw [if_pos hempty, if_pos (Or.inl (by rw [hempty]; rfl))]
      rfl
    · have hsize : (String.ofList name).utf8ByteSize ≠ 0 := by
        simpa using hempty
      rw [if_neg hempty, if_neg (by simp [hsize])]
      exact except_bind_eq_ok.2 ⟨_, hcut, readValue_eq _ quoted key⟩
  · have hround : roundOf tag.toList key = .answer none :=
      roundOf_of_ne fun quoted heq => hform ⟨quoted, by rw [hbehind, hentry, heq]⟩
    have hnot : ¬ [':', '"'] <+: behind := fun ⟨quoted, heq⟩ => hform ⟨quoted, heq.symm⟩
    rw [hround]
    split
    · rfl
    · refine except_bind_eq_ok.2 ⟨_, cut_eq_ok_iff.2 ⟨hparts, rfl⟩, ?_⟩
      dsimp only
      rw [if_pos (Or.inr (by rwa [String.toList_ofList]))]
      rfl

theorem scan_eq (tag key : String) : scan tag key = .ok (lookup? tag.toList key) := by
  fun_induction scan tag key with
  | case1 tag e h =>
    rw [round_eq] at h
    cases h
  | case2 tag value h =>
    rw [round_eq] at h
    rw [lookup?_eq, Except.ok.inj h]
  | case3 tag rest h ih =>
    rw [round_eq] at h
    rw [ih, lookup?_eq tag.toList, Except.ok.inj h]

/-- Whatever a tag is, a round cuts it only where one character ends and the next begins, and leaves a shorter rest if
it goes on; the search ends, with the value that is found character by character. -/
theorem scan_safe (tag key : String) :
    (∃ outcome, round tag key = .ok outcome ∧
      ∀ rest, outcome = .next rest → rest.utf8ByteSize < tag.utf8ByteSize) ∧
    scan tag key = .ok (lookup? tag.toList key) := by
  refine ⟨⟨_, round_eq tag key, fun rest hnext => ?_⟩, scan_eq tag key⟩
  have hround : round tag key = .ok (.next rest) := hnext ▸ round_eq tag key
  exact size_of_round hround

/-- A backslash in front of a character of several bytes, one at the end, and a name that is not ended. -/
example : scan "a:\"\\é\\😀\" b:\"x\"" "b" = .ok (some "x") ∧ scan "a:\"x\\" "a" = .ok none ∧
    scan "é" "é" = .ok none := by
  decide +kernel

end FluentChain.Tag
