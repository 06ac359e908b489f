import FluentChain.Type.Basic

/-!
# Selected fields

The type of the field that a selector `x.f` names: a field of the struct itself before any field of its
embedded members, which are searched in order, each to its full depth before the next.
-/

namespace FluentChain.TypeTable

/-- How many structs deep a field is looked for. -/
def maxSelectionDepth : Nat := 9

/-- Searches at most `depth` structs deep. -/
def selectWithin (t : TypeTable) (name : String) : Nat → TypeId → Option TypeId
  | 0, _ => none
  | depth + 1, id => do
    let fields ← t.structFields? id
    match fields.find? (·.name == name) with
    | some field => return field.type
    | none => (fields.filter (·.embedded)).findSome? fun f => t.selectWithin name depth f.type

/-- The type of the field that a selector finds in a value of type `id`, or in what it points to. -/
def selectField? (t : TypeTable) (id : TypeId) (name : String) : Option TypeId :=
  let base := match t.get? id with
    | some (.pointer elem) => elem
    | _ => id
  t.selectWithin name maxSelectionDepth base

end FluentChain.TypeTable
