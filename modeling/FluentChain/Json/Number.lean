import FluentChain.Text.Digits

/-!
# JSON numbers

The grammar of numbers, and which of them are too large.  A number is read as a significand of 64 bits and a
power of ten (`Scaled`), and its value is the product of the doubles next to the two, which has to be finite.
-/

namespace FluentChain.Json

open FluentChain.Text

/-- A whole part: a single zero, or digits that do not start with one. -/
def isWhole (cs : List Char) : Bool :=
  isDigits cs && (cs.length == 1 || cs.head? != some '0')

/-- What may follow a whole part and its fraction: nothing, or an exponent. -/
def isExponent : List Char → Bool
  | [] => true
  | e :: rest =>
    (e == 'e' || e == 'E') &&
      match rest with
      | '+' :: digits => isDigits digits
      | '-' :: digits => isDigits digits
      | digits => isDigits digits

def isNumber (cs : List Char) : Bool :=
  let unsigned := match cs with
    | '-' :: rest => rest
    | _ => cs
  isWhole (unsigned.takeWhile Char.isDigit) &&
    match unsigned.dropWhile Char.isDigit with
    | '.' :: rest => isDigits (rest.takeWhile Char.isDigit) && isExponent (rest.dropWhile Char.isDigit)
    | rest => isExponent rest

def isExponentMark (c : Char) : Bool := c == 'e' || c == 'E'

/-- The power of ten that a number is explicitly scaled by. -/
def writtenExponent (cs : List Char) : Int :=
  match (cs.dropWhile (!isExponentMark ·)).drop 1 with
  | '-' :: digits => -(digitsValue digits : Int)
  | '+' :: digits => digitsValue digits
  | digits => digitsValue digits

/-- The number `significand * 10 ^ exponent`. -/
structure Scaled where
  significand : Nat
  exponent : Int
deriving DecidableEq, Repr

/-- A significand has 64 bits. -/
def significandBound : Nat := Nat.pow 2 64

/-- Appends digits to a significand up to the first that does not fit, and gives those that are left. -/
def appendDigits (significand : Nat) : List Char → Nat × List Char
  | [] => (significand, [])
  | d :: rest =>
    let longer := significand * 10 + digitsValue [d]
    if longer < significandBound then appendDigits longer rest else (significand, d :: rest)

/-- The significand and the power of ten of a number.  A digit of the whole part that does not fit the
significand counts as a zero, and one of the fraction is dropped. -/
def scaled (cs : List Char) : Scaled :=
  let mantissa := cs.takeWhile (!isExponentMark ·)
  let fraction := (mantissa.dropWhile (· ≠ '.')).drop 1
  let (whole, zeros) := appendDigits 0 ((mantissa.takeWhile (· ≠ '.')).filter Char.isDigit)
  let (significand, dropped) := appendDigits whole fraction
  ⟨significand, zeros.length - (fraction.length - dropped.length : Nat) + writtenExponent cs⟩

/-- The number of 53 significant bits next to a number; of two equally near, the one whose last bit is zero. -/
def nearestDouble (n : Nat) : Nat :=
  let unit := Nat.pow 2 (n.log2 - 52)
  let below := n / unit
  let rest := n % unit
  if 2 * rest > unit ∨ (2 * rest = unit ∧ below % 2 = 1) then (below + 1) * unit else below * unit

/-- The least magnitude that rounds to no finite double. -/
def doubleBound : Nat := Nat.pow 2 1024 - Nat.pow 2 970

/-- The largest power of ten that is a finite double. -/
def maxExponent : Int := 308

def Scaled.isFinite (n : Scaled) : Bool :=
  if n.significand = 0 ∨ n.exponent ≤ 0 then true
  else if n.exponent > maxExponent then false
  else nearestDouble n.significand * nearestDouble (Nat.pow 10 n.exponent.toNat) < doubleBound

/-- Whether the value of a number is a finite double. -/
def isFinite (cs : List Char) : Bool := (scaled cs).isFinite

end FluentChain.Json
