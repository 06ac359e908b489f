import FluentChain.Type.Basic

/-!
# The text of a type

`TypeTable.display` writes a type as a type expression reads it.  Array lengths are forgotten, and structs and
functions, which no type expression can write, are abbreviated.
-/

namespace FluentChain.TypeTable

/-- The text of a type.  Components stand before their type in the table, so only those are written. -/
def display (t : TypeTable) (id : TypeId) : String :=
  let component (elem : TypeId) : String := if elem < id then t.display elem else ""
  match t.get? id with
  | none => ""
  | some (.basic name) => name
  | some (.named decl) => decl.name
  | some (.pointer elem) => "*" ++ component elem
  | some (.slice elem) => "[]" ++ component elem
  | some (.array elem) => "[_]" ++ component elem
  | some (.map key value) => "map[" ++ component key ++ "]" ++ component value
  | some (.struct _) => "struct\x7b...\x7d"
  | some (.signature sig) =>
    "func(" ++ ", ".intercalate (sig.params.map component) ++ ") ("
      ++ ", ".intercalate (sig.results.map component) ++ ")"
  | some .interface => "interface\x7b\x7d"
termination_by id

end FluentChain.TypeTable
