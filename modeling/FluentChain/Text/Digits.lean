/-!
# Decimal digits

The number that a run of decimal digits writes.
-/

namespace FluentChain.Text

/-- The number written by decimal digits, the most significant first. -/
def digitsValue (cs : List Char) : Nat :=
  cs.foldl (fun n c => n * 10 + (c.toNat - '0'.toNat)) 0

/-- Whether a text is one or more decimal digits. -/
def isDigits (cs : List Char) : Bool := !cs.isEmpty && cs.all Char.isDigit

end FluentChain.Text
