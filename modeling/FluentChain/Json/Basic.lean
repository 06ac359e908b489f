import FluentChain.Json.Number

/-!
# JSON values

Numbers keep their written form, since nothing here counts with them.  A string is `none` when an escape in it
names half of a surrogate pair: such a string has a place in a value but no text.
-/

namespace FluentChain

inductive Json
  | null
  | bool (value : Bool)
  | number (written : String)
  | string (text : Option String)
  | array (elements : List Json)
  | object (members : List (Option String × Json))

namespace Json

mutual

/-- Whether a value is one in all its parts: every string, keys included, has a text, and every number is
finite. -/
def isDefinite : Json → Bool
  | .string text => text.isSome
  | .number written => isFinite written.toList
  | .array elements => allDefinite elements
  | .object members => allMembersDefinite members
  | _ => true

def allDefinite : List Json → Bool
  | [] => true
  | j :: rest => j.isDefinite && allDefinite rest

def allMembersDefinite : List (Option String × Json) → Bool
  | [] => true
  | (key, j) :: rest => key.isSome && j.isDefinite && allMembersDefinite rest

end

/-- The value of an object's first member with the given key. -/
def member? : Json → String → Option Json
  | .object members, key => members.lookup (some key)
  | _, _ => none

theorem sizeOf_lookup_lt {members : List (Option String × Json)} {key : Option String} {v : Json}
    (h : members.lookup key = some v) : sizeOf v < sizeOf members := by
  induction members with
  | nil => simp at h
  | cons m rest ih =>
    obtain ⟨k, w⟩ := m
    rw [List.lookup_cons] at h
    simp only [List.cons.sizeOf_spec, Prod.mk.sizeOf_spec]
    split at h
    · simp only [Option.some.injEq] at h
      subst h
      omega
    · have := ih h
      omega

theorem sizeOf_member?_lt {j v : Json} {key : String} (h : j.member? key = some v) :
    sizeOf v < sizeOf j := by
  cases j <;> simp only [member?, reduceCtorEq] at h
  have := sizeOf_lookup_lt h
  simp only [Json.object.sizeOf_spec]
  omega

end Json

end FluentChain
