/-!
# Quoted texts

A quoted text stands between two quotes and writes characters plainly or behind a backslash.  `split` finds
the closing quote and shortens the text (`length_after_split`), `decode` reads what stands between the quotes,
and `encode` writes it.  Escapes of the form `\uXXXX` name UTF-16 units, so a character above U+FFFF takes two
of them; half a pair has no meaning.
-/

namespace FluentChain.Text.Quoted

/-- Splits what follows an opening quote at the closing one.  A backslash keeps the character after it from
closing. -/
def split : List Char → Option (List Char × List Char)
  | [] => none
  | '"' :: rest => some ([], rest)
  | '\\' :: c :: rest => (split rest).map fun (body, after) => ('\\' :: c :: body, after)
  | c :: rest => (split rest).map fun (body, after) => (c :: body, after)

theorem length_after_split {cs body after : List Char} (h : split cs = some (body, after)) :
    after.length < cs.length := by
  fun_induction split cs generalizing body with
  | case1 => simp at h
  | case2 => simp_all
  | case3 c rest ih =>
    obtain ⟨⟨b, a⟩, hr, he⟩ := Option.map_eq_some_iff.1 h
    simp only [Prod.mk.injEq] at he
    have := ih (he.2 ▸ hr)
    simp only [List.length_cons]
    omega
  | case4 c rest _ _ ih =>
    obtain ⟨⟨b, a⟩, hr, he⟩ := Option.map_eq_some_iff.1 h
    simp only [Prod.mk.injEq] at he
    have := ih (he.2 ▸ hr)
    simp only [List.length_cons]
    omega

/-- What one written item stands for: a character, or a UTF-16 unit. -/
inductive Item
  | char (c : Char)
  | unit (value : Nat)
deriving DecidableEq, Repr

def hexDigit? (c : Char) : Option Nat :=
  if '0' ≤ c ∧ c ≤ '9' then some (c.toNat - '0'.toNat)
  else if 'a' ≤ c ∧ c ≤ 'f' then some (c.toNat - 'a'.toNat + 10)
  else if 'A' ≤ c ∧ c ≤ 'F' then some (c.toNat - 'A'.toNat + 10)
  else none

def hexUnit? (a b c d : Char) : Option Nat := do
  return ((← hexDigit? a) * 16 + (← hexDigit? b)) * 256 + ((← hexDigit? c) * 16 + (← hexDigit? d))

/-- The character that a backslash and one letter stand for. -/
def shortEscape? : Char → Option Char
  | '"' => some '"'
  | '\\' => some '\\'
  | '/' => some '/'
  | 'b' => some '\x08'
  | 'f' => some '\x0C'
  | 'n' => some '\n'
  | 'r' => some '\r'
  | 't' => some '\t'
  | _ => none

/-- The items between two quotes; a bare quote, a control character and any other escape are refused. -/
def items? : List Char → Option (List Item)
  | [] => some []
  | '\\' :: 'u' :: a :: b :: c :: d :: rest => do
    let value ← hexUnit? a b c d
    return .unit value :: (← items? rest)
  | '\\' :: c :: rest => do
    let plain ← shortEscape? c
    return .char plain :: (← items? rest)
  | c :: rest => do
    if c = '"' ∨ c = '\\' ∨ c < ' ' then none
    return .char c :: (← items? rest)

def isHighSurrogate (unit : Nat) : Bool := 0xD800 ≤ unit && unit < 0xDC00

def isLowSurrogate (unit : Nat) : Bool := 0xDC00 ≤ unit && unit < 0xE000

/-- Joins the two halves of each surrogate pair; half a pair alone is refused. -/
def join? : List Item → Option (List Char)
  | [] => some []
  | .char c :: rest => (join? rest).map (c :: ·)
  | .unit high :: .unit low :: rest =>
    if isHighSurrogate high then
      if isLowSurrogate low then
        (join? rest).map (Char.ofNat (0x10000 + (high - 0xD800) * 0x400 + (low - 0xDC00)) :: ·)
      else none
    else if isLowSurrogate high then none
    else (join? (.unit low :: rest)).map (Char.ofNat high :: ·)
  | .unit value :: rest =>
    if isHighSurrogate value || isLowSurrogate value then none
    else (join? rest).map (Char.ofNat value :: ·)

/-- The text written between two quotes. -/
def decode (body : List Char) : Option (List Char) := items? body >>= join?

/-- The text of a quoted form, quotes included. -/
def read? : List Char → Option (List Char)
  | '"' :: rest => do
    let (body, after) ← split rest
    if after.isEmpty then decode body else none
  | _ => none

def hexChar (digit : Nat) : Char :=
  if digit < 10 then Char.ofNat ('0'.toNat + digit) else Char.ofNat ('a'.toNat + (digit - 10))

/-- How one character is written: quotes, backslashes and control characters behind a backslash, all else
plainly. -/
def encodeChar (c : Char) : List Char :=
  match c with
  | '"' => ['\\', '"']
  | '\\' => ['\\', '\\']
  | '\x08' => ['\\', 'b']
  | '\x0C' => ['\\', 'f']
  | '\n' => ['\\', 'n']
  | '\r' => ['\\', 'r']
  | '\t' => ['\\', 't']
  | c => if c < ' ' then ['\\', 'u', '0', '0', hexChar (c.toNat / 16), hexChar (c.toNat % 16)] else [c]

/-- The quoted form of a text, quotes included. -/
def encode (text : List Char) : List Char := '"' :: (text.flatMap encodeChar ++ ['"'])

end FluentChain.Text.Quoted
