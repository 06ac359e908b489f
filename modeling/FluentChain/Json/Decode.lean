import FluentChain.Json.Basic

/-!
# Decoding JSON values

Readers for the members of an object.  A member that may be absent may also be `null`; a member with a default
may be absent, but is not `null`.  Members that nothing asks for are ignored.
-/

namespace FluentChain.Json

/-- An object all of whose keys are texts. -/
def isRecord : Json → Bool
  | .object members => members.all (·.1.isSome)
  | _ => false

def string? : Json → Option String
  | .string text => text
  | _ => none

def bool? : Json → Option Bool
  | .bool value => some value
  | _ => none

def array? : Json → Option (List Json)
  | .array elements => some elements
  | _ => none

def strings? (j : Json) : Option (List String) := j.array? >>= (·.mapM string?)

/-- A member that must be there. -/
def required? {α : Type} (j : Json) (key : String) (read : Json → Option α) : Option α :=
  j.member? key >>= read

/-- A member that may be absent or `null`. -/
def optional? {α : Type} (j : Json) (key : String) (read : Json → Option α) : Option (Option α) :=
  match j.member? key with
  | none | some .null => some none
  | some v => (read v).map some

/-- A member with a default. -/
def defaulted? {α : Type} (j : Json) (key : String) (default : α) (read : Json → Option α) : Option α :=
  match j.member? key with
  | none => some default
  | some v => read v

/-- A name from a fixed list.  It may also be written as the one key of an object whose value is empty. -/
def choice? {α : Type} (names : List (String × α)) (isEmpty : Json → Bool) : Json → Option α
  | .string (some name) => names.lookup name
  | .object [(some name, v)] => if isEmpty v then names.lookup name else none
  | _ => none

def isNull : Json → Bool
  | .null => true
  | _ => false

def isNullOrEmpty : Json → Bool
  | .null | .object [] => true
  | _ => false

end FluentChain.Json
