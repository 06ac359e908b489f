import FluentChain.Text.Blank
import FluentChain.Text.Letter
import FluentChain.Type.Basic

/-!
# Type expressions

The written form of a type: `*T`, `[]T`, `[N]T`, `map[K]V`, the empty interface, a predeclared name, or a
declared name that may be qualified by its package.

Reading goes in two steps.  `TypeExpr.parse` finds the shape of a text and puts a `malformed` leaf where a part
of it is no type; `TypeExpr.resolve` then walks the shape from the left and looks every part up in the type
table, adding the composite types it meets.  A qualified name that is not declared becomes a named type without
a definition; any other unknown name, and the first malformed leaf, stop the walk, and what was added before
stays in the table.
-/

namespace FluentChain

/-- What is wrong with a text that is no type. -/
inductive TypeFlaw
  | empty
  | unbalanced
  | arrayLength
  | notAName
deriving DecidableEq, Repr

def TypeFlaw.message : TypeFlaw → String
  | .empty => "empty type"
  | .unbalanced => "unbalanced `[`"
  | .arrayLength => "array length must be a constant"
  | .notAName => "not a type name"

inductive TypeExpr
  | pointer (elem : TypeExpr)
  | slice (elem : TypeExpr)
  | array (elem : TypeExpr)
  | map (key value : TypeExpr)
  | interface
  | basic (name : String)
  | declared (name : String)
  | malformed (text : String) (flaw : TypeFlaw)
deriving DecidableEq, Repr

inductive TypeExprError
  | malformed (text : String) (flaw : TypeFlaw)
  | unknown (name : String)
deriving DecidableEq, Repr

def TypeExprError.message : TypeExprError → String
  | .malformed text flaw => "invalid type expression `" ++ text ++ "`: " ++ flaw.message
  | .unknown name => "unknown type `" ++ name ++ "`"

namespace TypeExpr

def predeclared : List String :=
  ["bool", "byte", "complex64", "complex128", "error", "float32", "float64", "int", "int8", "int16", "int32",
   "int64", "rune", "string", "uint", "uint8", "uint16", "uint32", "uint64", "uintptr"]

/-- Splits what follows an opening bracket at the bracket that closes it, where `depth` further brackets are
open. -/
def splitBracket? : Nat → List Char → Option (List Char × List Char)
  | _, [] => none
  | 0, ']' :: rest => some ([], rest)
  | depth + 1, ']' :: rest => (splitBracket? depth rest).map fun (inner, after) => (']' :: inner, after)
  | depth, '[' :: rest => (splitBracket? (depth + 1) rest).map fun (inner, after) => ('[' :: inner, after)
  | depth, c :: rest => (splitBracket? depth rest).map fun (inner, after) => (c :: inner, after)

theorem length_splitBracket {depth : Nat} {cs inner after : List Char}
    (h : splitBracket? depth cs = some (inner, after)) :
    inner.length + after.length < cs.length := by
  fun_induction splitBracket? depth cs generalizing inner with
  | case1 => simp at h
  | case2 => simp_all
  | _ =>
    rename_i ih
    obtain ⟨⟨i, a⟩, hr, he⟩ := Option.map_eq_some_iff.1 h
    simp only [Prod.mk.injEq] at he
    obtain ⟨rfl, rfl⟩ := he
    have := ih hr
    simp only [List.length_cons]
    omega

def isLengthChar (c : Char) : Bool := c.isDigit || c == '_'

def isNameStart (c : Char) : Bool := Text.isLetter c || c == '_'

def isNameChar (c : Char) : Bool := Text.isLetter c || Text.isNumeral c || c == '_'

def isIdentifier : List Char → Bool
  | [] => false
  | c :: rest => isNameStart c && rest.all isNameChar

/-- Identifiers joined by dots. -/
def isQualified (cs : List Char) : Bool := (cs.splitOn '.').all isIdentifier

/-- The shape of a text without blanks around it; `whole` is the text with them. -/
def nameShape (whole text : List Char) : TypeExpr :=
  let name := String.ofList text
  if name = "interface\x7b\x7d" ∨ name = "any" then .interface
  else if name ∈ predeclared then .basic name
  else if isQualified text then .declared name
  else .malformed (String.ofList whole) .notAName

def parse (whole : List Char) : TypeExpr :=
  match _h : Text.trim whole with
  | [] => .malformed (String.ofList whole) .empty
  | '*' :: rest => .pointer (parse rest)
  | '[' :: ']' :: rest => .slice (parse rest)
  | 'm' :: 'a' :: 'p' :: '[' :: rest =>
    match _hs : splitBracket? 0 rest with
    | none => .malformed (String.ofList whole) .unbalanced
    | some (key, value) => .map (parse key) (parse value)
  | '[' :: rest =>
    match _hs : splitBracket? 0 rest with
    | none => .malformed (String.ofList whole) .unbalanced
    | some (length, elem) =>
      let length := Text.trim length
      if length ≠ [] ∧ length.all isLengthChar then .array (parse elem)
      else .malformed (String.ofList whole) .arrayLength
  | text => nameShape whole text
termination_by whole.length
decreasing_by
  all_goals
    have hle := Text.length_trim_le whole
    rw [_h] at hle
    simp only [List.length_cons] at hle
    try have hlt := length_splitBracket _hs
    omega

/-- The type a shape stands for, with the state of the table after the walk through it. -/
def resolve : TypeExpr → EStateM TypeExprError TypeTable TypeId
  | .pointer elem => do
    let elem ← elem.resolve
    modifyGet (·.intern (.pointer elem))
  | .slice elem => do
    let elem ← elem.resolve
    modifyGet (·.intern (.slice elem))
  | .array elem => do
    let elem ← elem.resolve
    modifyGet (·.intern (.array elem))
  | .map key value => do
    let key ← key.resolve
    let value ← value.resolve
    modifyGet (·.intern (.map key value))
  | .interface => modifyGet (·.intern .interface)
  | .basic name => modifyGet (·.intern (.basic name))
  | .declared name => do
    match (← get).named? name with
    | some id => return id
    | none =>
      if '.' ∈ name.toList then modifyGet (·.declare name none)
      else throw (.unknown name)
  | .malformed text flaw => throw (.malformed text flaw)

end TypeExpr

/-- The type that a text stands for. -/
def TypeTable.parse (text : String) : EStateM TypeExprError TypeTable TypeId :=
  (TypeExpr.parse text.toList).resolve

/-- Takes the mark `...` of a variadic parameter off its type. -/
def TypeExpr.splitVariadic (text : String) : String × Bool :=
  match Text.trim text.toList with
  | '.' :: '.' :: '.' :: rest => (String.ofList rest, true)
  | _ => (text, false)

end FluentChain
