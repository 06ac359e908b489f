import FluentChain.Text.Blank
import FluentChain.Text.Quoted

/-!
# String literals

The text a string literal denotes.  A literal is either raw, between two backquotes, or quoted with escapes.
-/

namespace FluentChain.Text

def backquote : Char := '\x60'

/-- What stands between the backquotes of a raw literal. -/
def rawBody? : List Char → Option (List Char)
  | [] => none
  | c :: rest => if c = backquote ∧ rest.getLast? = some backquote then some rest.dropLast else none

/-- The text of a string literal.  Raw literals drop their carriage returns; quoted ones may stand between
spaces. -/
def decodeLiteral (raw : String) : Option String :=
  match rawBody? raw.toList with
  | some body => some (String.ofList (body.filter (· ≠ '\r')))
  | none =>
    let cs := ((raw.toList.dropWhile isSpace).reverse.dropWhile isSpace).reverse
    (Quoted.read? cs).map String.ofList

end FluentChain.Text
