import FluentChain.Program.Build
import FluentChain.Proofs.Record.Fields
import FluentChain.Proofs.Record.Flattened

/-!
# Fields by selection and by table

A selector `x.f` looks its field up on its own: it searches the members of the struct and then those of its embedded
members, each to its full depth before the next, and takes the first of the name (`TypeTable.selectWithin_eq`).  The
field table of the struct is made of the same members in another order, without the embedded ones, and may refuse two of
one name.  Where it does not, the order makes no difference (`selectField?_eq`), unless an embedded member of the name
is met first (`TypeTable.metBefore`).
-/

namespace FluentChain

namespace TypeTable

variable {t : TypeTable}

/-- The members that are met when a name is looked for in a struct type that does not have it, at most `depth` structs
deep: those of the struct, and then those met in its embedded members. -/
def searched (t : TypeTable) : Nat → TypeId → List Field
  | 0, _ => []
  | depth + 1, id =>
    match t.structFields? id with
    | some fields => fields ++ (fields.filter (·.embedded)).flatMap fun f => t.searched depth f.type
    | none => []

/-- The members that are met before a field of the name that is not embedded. -/
def metBefore (t : TypeTable) (name : String) (id : TypeId) : List Field :=
  (t.searched maxSelectionDepth id).takeWhile fun f => f.embedded || f.name != name

/-- Whether the structs embedded in a struct with these fields are nested at most `depth` deep. -/
def nestsWithin (t : TypeTable) : Nat → List Field → Bool
  | 0, fields => fields.all fun f => !f.embedded || (t.structFields? f.type).isNone
  | depth + 1, fields => fields.all fun f => !f.embedded ||
    match t.structFields? f.type with
    | some inner => t.nestsWithin depth inner
    | none => true

/-- A search finds the first of the members it meets that has the name. -/
theorem selectWithin_eq (name : String) (depth : Nat) (id : TypeId) :
    t.selectWithin name depth id = ((t.searched depth id).find? (·.name == name)).map (·.type) := by
  induction depth generalizing id with
  | zero => rfl
  | succ depth ih =>
    rw [selectWithin, searched]
    cases t.structFields? id with
    | none => rfl
    | some fields =>
      have hinner : (fields.filter (·.embedded)).findSome? (fun f => t.selectWithin name depth f.type) =
          (((fields.filter (·.embedded)).flatMap fun f => t.searched depth f.type).find? (·.name == name)).map
            (·.type) := by
        rw [List.find?_flatMap, List.map_findSome?]
        congr 1
        funext f
        exact ih f.type
      dsimp only [Option.bind_eq_bind, Option.bind_some]
      rw [List.find?_append]
      cases fields.find? (·.name == name) with
      | some field => rfl
      | none => simpa using hinner

/-! ### The same members -/

/-- What a struct promotes is what a search meets in it, save for the embedded members. -/
theorem mem_promoted_iff {depth : Nat} {id : TypeId} {fields : List Field} (hid : t.structFields? id = some fields)
    {g : Field} : g ∈ t.promoted depth fields ↔ g ∈ t.searched (depth + 1) id ∧ g.embedded = false := by
  induction depth generalizing id fields with
  | zero =>
    rw [promoted, searched, hid]
    simp [searched]
  | succ depth ih =>
    rw [promoted, searched, hid, List.mem_flatMap]
    dsimp only
    rw [List.mem_append, List.mem_flatMap]
    constructor
    · rintro ⟨f, hf, hg⟩
      by_cases hembedded : f.embedded = true
      · rw [if_pos hembedded] at hg
        cases hinner : t.structFields? f.type with
        | none => simp [hinner] at hg
        | some inner =>
          simp only [hinner] at hg
          obtain ⟨hmem, hplain⟩ := (ih hinner).1 hg
          exact ⟨Or.inr ⟨f, List.mem_filter.2 ⟨hf, hembedded⟩, hmem⟩, hplain⟩
      · rw [if_neg hembedded, List.mem_singleton] at hg
        subst hg
        exact ⟨Or.inl hf, by simpa using hembedded⟩
    · rintro ⟨hg | ⟨f, hf, hg⟩, hplain⟩
      · exact ⟨g, hg, by simp [hplain]⟩
      · obtain ⟨hf, hembedded⟩ := List.mem_filter.1 hf
        refine ⟨f, hf, ?_⟩
        rw [if_pos hembedded]
        cases hinner : t.structFields? f.type with
        | none =>
          rw [searched, hinner] at hg
          cases hg
        | some inner => exact (ih hinner).2 ⟨hg, hplain⟩

/-- Nothing is promoted from deeper than structs nest. -/
theorem promoted_of_nestsWithin {depth more : Nat} {fields : List Field} (h : t.nestsWithin depth fields = true)
    (hle : depth ≤ more) : t.promoted more fields = t.promoted depth fields := by
  induction depth generalizing more fields with
  | zero =>
    cases more with
    | zero => rfl
    | succ more =>
      refine flatMap_of_embedded_nil fun f hf hembedded => ?_
      have hnone := List.all_eq_true.1 h f hf
      simp only [hembedded, Bool.not_true, Bool.false_or, Option.isNone_iff_eq_none] at hnone
      rw [hnone]
  | succ depth ih =>
    obtain ⟨more, rfl⟩ : ∃ k, more = k + 1 := ⟨more - 1, by omega⟩
    refine List.flatMap_congr fun f hf => ?_
    have hinner := List.all_eq_true.1 h f hf
    by_cases hembedded : f.embedded = true
    · rw [if_pos hembedded, if_pos hembedded]
      simp only [hembedded, Bool.not_true, Bool.false_or] at hinner
      split
      · rename_i inner hstruct
        simp only [hstruct] at hinner
        exact ih hinner (by omega)
      · rfl
    · rw [if_neg hembedded, if_neg hembedded]

end TypeTable

/-! ### Records without aliases -/

/-- A record type with a field table that lists its fields under their own names, and in which structs are not nested
too deep for a selector. -/
structure PlainRecord (types : TypeTable) (tag : TagConfig) (record : TypeId) (fields : List Field)
    (table : FieldTable) : Prop where
  self : types.recordType? record = some record
  struct : types.structFields? record = some fields
  builds : FieldTable.ofType types tag record = .ok table
  unaliased : ∀ g ∈ types.promoted FieldTable.maxEmbedDepth fields, FieldTable.keyOf tag g = g.name
  nests : types.nestsWithin 8 fields = true

instance (types : TypeTable) (tag : TagConfig) (record : TypeId) (fields : List Field) (table : FieldTable) :
    Decidable (PlainRecord types tag record fields table) :=
  decidable_of_iff (types.recordType? record = some record ∧ types.structFields? record = some fields ∧
      FieldTable.ofType types tag record = .ok table ∧
      (∀ g ∈ types.promoted FieldTable.maxEmbedDepth fields, FieldTable.keyOf tag g = g.name) ∧
      types.nestsWithin 8 fields = true)
    ⟨fun h => ⟨h.1, h.2.1, h.2.2.1, h.2.2.2.1, h.2.2.2.2⟩,
      fun h => ⟨h.self, h.struct, h.builds, h.unaliased, h.nests⟩⟩

namespace PlainRecord

variable {types : TypeTable} {tag : TagConfig} {record : TypeId} {fields : List Field} {table : FieldTable}

/-- The table holds just the members that a search meets and that are not embedded. -/
theorem get?_eq_some_iff (h : PlainRecord types tag record fields table) {name : String} {field : RecordField} :
    table.get? name = some field ↔ ∃ g ∈ types.searched TypeTable.maxSelectionDepth record,
      g.embedded = false ∧ g.name = name ∧ FieldTable.recordField types tag g = field := by
  obtain ⟨hfields, hnodup⟩ := FieldTable.fields_of_ofType h.struct h.builds
  have hpromoted : ∀ g, g ∈ types.promoted FieldTable.maxEmbedDepth fields ↔
      g ∈ types.searched TypeTable.maxSelectionDepth record ∧ g.embedded = false := by
    intro g
    rw [TypeTable.promoted_of_nestsWithin h.nests (by decide)]
    exact TypeTable.mem_promoted_iff h.struct
  rw [FieldTable.get?_eq_some_iff hnodup, hfields]
  constructor
  · rintro ⟨hmem, hkey⟩
    obtain ⟨g, hg, rfl⟩ := List.mem_map.1 hmem
    obtain ⟨hsearched, hplain⟩ := (hpromoted g).1 hg
    have hname : FieldTable.keyOf tag g = g.name := h.unaliased g hg
    exact ⟨g, hsearched, hplain, hname.symm.trans hkey, rfl⟩
  · rintro ⟨g, hsearched, hplain, hname, rfl⟩
    have hg := (hpromoted g).2 ⟨hsearched, hplain⟩
    exact ⟨List.mem_map_of_mem hg, (h.unaliased g hg).trans hname⟩

/-- A selector finds the field that the table has under the name, unless it meets an embedded member of the name
before. -/
theorem selectWithin_eq (h : PlainRecord types tag record fields table) {name : String} {field : RecordField}
    (hfield : table.get? name = some field) (hmet : ∀ g ∈ types.metBefore name record, g.name ≠ name) :
    types.selectWithin name TypeTable.maxSelectionDepth record = some field.type := by
  obtain ⟨g, hg, hplain, hname, rfl⟩ := h.get?_eq_some_iff.1 hfield
  have hsome : ((types.searched TypeTable.maxSelectionDepth record).find? (·.name == name)).isSome :=
    List.find?_isSome.2 ⟨g, hg, beq_iff_eq.2 hname⟩
  obtain ⟨first, hfirst⟩ := Option.isSome_iff_exists.1 hsome
  obtain ⟨hfirstName, before, after, heq, hbefore⟩ := List.find?_eq_some_iff_append.1 hfirst
  have hfirstPlain : first.embedded = false := by
    by_contra hnot
    have hembedded : first.embedded = true := by simpa using hnot
    -- nothing before the first member of the name ends the list of those that are met
    have hothers : ∀ other ∈ before, (other.embedded || other.name != name) = true := by
      intro other hother
      have hne : (other.name != name) = true := hbefore other hother
      rw [hne, Bool.or_true]
    have hmem : first ∈ types.metBefore name record := by
      unfold TypeTable.metBefore
      rw [heq, List.takeWhile_append_of_pos hothers, List.takeWhile_cons_of_pos (by simp [hembedded])]
      simp
    exact hmet first hmem (by simpa using hfirstName)
  have hsame : table.get? name = some (FieldTable.recordField types tag first) := by
    refine h.get?_eq_some_iff.2 ⟨first, ?_, hfirstPlain, by simpa using hfirstName, rfl⟩
    rw [heq]
    simp
  rw [TypeTable.selectWithin_eq, hfirst]
  rw [hfield] at hsame
  exact congrArg (Option.map RecordField.type) hsame.symm

/-- The same for a value of the record type and for a pointer to one. -/
theorem selectField?_eq (h : PlainRecord types tag record fields table) {name : String} {field : RecordField}
    (hfield : table.get? name = some field) (hmet : ∀ g ∈ types.metBefore name record, g.name ≠ name)
    {id : TypeId} (hid : id = record ∨ types.get? id = some (.pointer record)) :
    types.selectField? id name = some field.type := by
  have hselect := h.selectWithin_eq hfield hmet
  unfold TypeTable.selectField?
  rcases hid with rfl | hpointer
  · obtain ⟨hdecl, -⟩ := TypeTable.recordType?_eq_self_iff.1 h.self
    unfold TypeTable.decl? at hdecl
    split at hdecl
    · rename_i hget
      simp only [hget]
      exact hselect
    · cases hdecl
  · simp only [hpointer]
    exact hselect

end PlainRecord

/-! ### Selectors as they are built -/

namespace Build

variable {p : Program} {x sel : NodeId} {table : FieldTable} {tag : TagConfig} {record id : TypeId}
  {fields : List Field} {name : String} {field : RecordField}

/-- A selector is added behind all other nodes. -/
theorem eq_size_of_selector {q : Program} {n : NodeId} (h : selector x sel p = .ok n q) : n = p.nodes.size := by
  cases h
  rfl

/-- A selector of a field of a record is given the type that the field has in the table of the record. -/
theorem selector_of_plainRecord (h : PlainRecord p.types tag record fields table)
    (hfield : table.get? name = some field) (hmet : ∀ g ∈ p.types.metBefore name record, g.name ≠ name)
    (hx : p.type? x = some id) (hid : id = record ∨ p.types.get? id = some (.pointer record))
    {obj : Option ObjId} {isDef : Bool} (hsel : p.node? sel = some (.ident name obj isDef))
    (huntyped : p.type? sel = none) :
    selector x sel p = .ok p.nodes.size
      { p with nodes := p.nodes.push ⟨.selector x sel, p.pos x, some field.type⟩ } := by
  have htype : selectionType? p x sel = some field.type := by
    unfold selectionType?
    rw [hsel, hx]
    exact h.selectField?_eq hfield hmet hid
  unfold selector
  rw [get_bind, huntyped, htype]
  rfl

end Build

end FluentChain
