import FluentChain.Proofs.Text.Quoted
import FluentChain.Record.Tag
import Mathlib.Data.List.TakeWhile

/-!
# Written struct tags

`Tag.Written pairs cs` says that the tag `cs` writes a list of names with their values, each value as a quoted form
of any kind.  Looking a name up in such a tag finds the first value that was written under it
(`lookup?_of_written`): the search for the end of a value passes over its escapes, so the next entry begins where it
was written.
-/

namespace FluentChain.Tag

open FluentChain.Text

variable {c : Char} {cs name spaces quoted body after : List Char} {pairs : List (String × String)} {key : String}

/-- The characters of a name. -/
def IsNameChar (c : Char) : Prop := ' ' < c ∧ c ≠ ':' ∧ c ≠ '"' ∧ c ≠ '\x7F'

/-- The tag writes the pairs one after another, with spaces in any places between them. -/
inductive Written : List (String × String) → List Char → Prop
  | nil {spaces : List Char} (hspaces : ∀ c ∈ spaces, c = ' ') : Written [] spaces
  | cons {spaces name body value after : List Char} {pairs : List (String × String)}
    (hspaces : ∀ c ∈ spaces, c = ' ') (hne : name ≠ []) (hname : ∀ c ∈ name, IsNameChar c)
    (hvalue : Quoted.Literal body value) (hafter : Written pairs after) :
    Written ((String.ofList name, String.ofList value) :: pairs)
      (spaces ++ (name ++ ':' :: '"' :: (body ++ '"' :: after)))

theorem IsNameChar.endsName_eq (h : IsNameChar c) : endsName c = false := by
  obtain ⟨hspace, hcolon, hquote, hdelete⟩ := h
  simp [endsName, Char.not_le.2 hspace, hcolon, hquote, hdelete]

theorem IsNameChar.ne_space (h : IsNameChar c) : c ≠ ' ' := by
  rintro rfl
  exact absurd h.1 (by decide)

/-- The spaces in front of a name are left out. -/
theorem dropWhile_entry (hspaces : ∀ c ∈ spaces, c = ' ') (hne : name ≠ []) (hname : ∀ c ∈ name, IsNameChar c) :
    (spaces ++ (name ++ cs)).dropWhile (· == ' ') = name ++ cs := by
  obtain ⟨c, rest, rfl⟩ := List.exists_cons_of_ne_nil hne
  have hspace : ∀ d ∈ spaces, (d == ' ') = true := fun d hd => beq_iff_eq.2 (hspaces d hd)
  have hc : ¬ (c == ' ') = true := fun h => (hname c List.mem_cons_self).ne_space (eq_of_beq h)
  rw [List.dropWhile_append_of_pos hspace]
  exact List.dropWhile_cons_of_neg hc

/-- A name ends at its colon. -/
theorem dropWhile_name (hname : ∀ c ∈ name, IsNameChar c) :
    (name ++ ':' :: cs).dropWhile (!endsName ·) = ':' :: cs := by
  rw [List.dropWhile_append_of_pos fun c hc => by rw [(hname c hc).endsName_eq]; rfl]
  exact List.dropWhile_cons_of_neg (by decide)

theorem takeWhile_name (hname : ∀ c ∈ name, IsNameChar c) :
    (name ++ ':' :: cs).takeWhile (!endsName ·) = name := by
  rw [List.takeWhile_append_of_pos fun c hc => by rw [(hname c hc).endsName_eq]; rfl,
    List.takeWhile_cons_of_neg (by decide), List.append_nil]

theorem lookup?_spaces (hspaces : ∀ c ∈ spaces, c = ' ') : lookup? spaces key = none := by
  have hentry : spaces.dropWhile (· == ' ') = [] :=
    List.dropWhile_eq_nil_iff.2 fun c hc => beq_iff_eq.2 (hspaces c hc)
  rw [lookup?]
  simp [hentry]

/-- The entry at the front is taken if it has the name, and otherwise the search goes on behind it. -/
theorem lookup?_entry (hspaces : ∀ c ∈ spaces, c = ' ') (hne : name ≠ []) (hname : ∀ c ∈ name, IsNameChar c)
    (hsplit : Quoted.split quoted = some (body, after)) :
    lookup? (spaces ++ (name ++ ':' :: '"' :: quoted)) key =
      if String.ofList name = key then (Quoted.decode body).map String.ofList else lookup? after key := by
  have hentry : (spaces ++ (name ++ ':' :: '"' :: quoted)).dropWhile (· == ' ') = name ++ ':' :: '"' :: quoted :=
    dropWhile_entry hspaces hne hname
  have hcolon : (name ++ ':' :: '"' :: quoted).dropWhile (!endsName ·) = ':' :: '"' :: quoted := dropWhile_name hname
  rw [lookup?]
  simp only [hentry, takeWhile_name hname]
  split
  · rename_i quoted' heq
    rw [hentry, hcolon] at heq
    cases heq
    rw [if_neg hne]
    split
    · rename_i hs
      cases hsplit.symm.trans hs
    · rename_i hs
      cases hsplit.symm.trans hs
      rfl
  · rename_i hnot
    rw [hentry, hcolon] at hnot
    exact absurd rfl (hnot quoted)

/-- Looking a name up in a written tag gives the value that was first written under it. -/
theorem lookup?_of_written (h : Written pairs cs) (key : String) :
    lookup? cs key = pairs.lookup key := by
  induction h with
  | nil hspaces => exact lookup?_spaces hspaces
  | @cons spaces name body value after pairs hspaces hne hname hvalue _ ih =>
    rw [lookup?_entry hspaces hne hname hvalue.split, hvalue.decode, ih, Option.map_some, List.lookup_cons]
    by_cases hkey : String.ofList name = key
    · rw [if_pos hkey, beq_iff_eq.2 hkey.symm]
    · rw [if_neg hkey, beq_eq_false_iff_ne.2 (Ne.symm hkey)]

/-- A tag with escapes, with and without spaces between its entries, in which one name stands twice. -/
def sample : List Char := "  json:\"a\\\"b\"x:\"\\u00e9\\uD83D\\ude00\"   json:\"\" ".toList

theorem written_sample : Written [("json", "a\"b"), ("x", "é😀"), ("json", "")] sample := by
  have hquote : Quoted.Literal ['a', '\\', '"', 'b'] ['a', '"', 'b'] :=
    .plain (by decide) (.short rfl (.plain (by decide) .nil))
  have hunits : Quoted.Literal "\\u00e9\\uD83D\\ude00".toList ['é', '😀'] :=
    .unit rfl (.pair (by decide) rfl rfl .nil)
  have hnames : (∀ c ∈ ['j', 's', 'o', 'n'], IsNameChar c) ∧ ∀ c ∈ ['x'], IsNameChar c := by
    simp [IsNameChar]
  have hlast := @Written.cons [' ', ' ', ' '] ['j', 's', 'o', 'n'] [] [] [' '] [] (by simp) (by simp) hnames.1 .nil
    (.nil (by simp))
  have hmiddle := @Written.cons [] ['x'] _ _ _ _ (by simp) (by simp) hnames.2 hunits hlast
  exact @Written.cons [' ', ' '] ['j', 's', 'o', 'n'] _ _ _ _ (by simp) (by simp) hnames.1 hquote hmiddle

theorem lookup?_of_written_sample :
    Written [("json", "a\"b"), ("x", "é😀"), ("json", "")] sample ∧ lookup? sample "json" = some "a\"b" ∧
      lookup? sample "x" = some "é😀" ∧ lookup? sample "xml" = none := by
  refine ⟨written_sample, ?_, ?_, ?_⟩
  all_goals
    rw [lookup?_of_written written_sample]
    decide

end FluentChain.Tag
