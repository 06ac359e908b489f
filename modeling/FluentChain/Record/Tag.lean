import FluentChain.Text.Blank
import FluentChain.Text.Lowercase
import FluentChain.Text.Quoted

/-!
# Struct tags

A struct tag is a run of entries `name:"value"` with spaces between them (`Tag.lookup?`), and the value of an
entry is a list of attributes `name:value` or `name` with semicolons between them (`Tag.attributes`).
-/

namespace FluentChain.Tag

open FluentChain.Text

/-- Whether a character ends the name of an entry. -/
def endsName (c : Char) : Bool := c ≤ ' ' || c == ':' || c == '"' || c == '\x7F'

/-- The value of the first entry with a name, in the tag `cs`.  The first malformed entry ends the tag. -/
def lookup? (cs : List Char) (key : String) : Option String :=
  let entry := cs.dropWhile (· == ' ')
  match _hq : entry.dropWhile (!endsName ·) with
  | ':' :: '"' :: quoted =>
    let name := entry.takeWhile (!endsName ·)
    if name = [] then none
    else match _hs : Quoted.split quoted with
      | none => none
      | some (body, after) =>
        if String.ofList name = key then (Quoted.decode body).map String.ofList
        else lookup? after key
  | _ => none
termination_by cs.length
decreasing_by
  have hafter := Quoted.length_after_split _hs
  have hquoted := length_dropWhile_le (!endsName ·) (cs.dropWhile (· == ' '))
  have hentry := length_dropWhile_le (· == ' ') cs
  rw [_hq] at hquoted
  simp only [List.length_cons] at hquoted
  omega

/-- Splits a text at its first colon. -/
def splitColon? (cs : List Char) : Option (List Char × List Char) :=
  match cs.dropWhile (· ≠ ':') with
  | [] => none
  | _ :: rest => some (cs.takeWhile (· ≠ ':'), rest)

/-- One attribute: its name in lower case, and its value, which is empty if it has none. -/
def readAttribute (part : List Char) : String × String :=
  match splitColon? part with
  | some (name, value) => (String.ofList (lowercase (trim name)), String.ofList (trim value))
  | none => (String.ofList (lowercase (trim part)), "")

/-- The attributes in the value of an entry; blank ones are left out. -/
def attributes (value : String) : List (String × String) :=
  ((value.toList.splitOn ';').filter fun part => !(trim part).isEmpty).map readAttribute

/-- The value of the first attribute with a name, in whatever case the name is given. -/
def findAttribute? (value : String) (name : String) : Option String :=
  (attributes value).lookup (String.ofList (lowercase name.toList))

end FluentChain.Tag
