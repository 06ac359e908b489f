import FluentChain.Proofs.Index
import FluentChain.Proofs.Related
import FluentChain.Record.FieldTable

/-!
# Field tables with an index

The table of a record is filled through all structs that are embedded in it, and each key is looked up in an index
before its field is added (`IndexedFieldTable`).  However deep the structs are and wherever a key repeats, table and
index stay in step, and what comes of it is the table that searches its fields, or the same error
(`IndexedFieldTable.ends_ofType`).
-/

namespace FluentChain

/-- The fields of a record with an index of their keys. -/
structure IndexedFieldTable where
  fields : Array RecordField := #[]
  index : Index String := ∅

namespace IndexedFieldTable

/-- The table without its index. -/
def table (t : IndexedFieldTable) : FieldTable := ⟨t.fields.toList⟩

/-- The field that a key leads to. -/
def get? (t : IndexedFieldTable) (key : String) : Option RecordField := (t.index.lookup key).bind fun i => t.fields[i]?

/-- Adds a field and enters its key, if the key is not taken yet. -/
def insert (t : IndexedFieldTable) (field : RecordField) : Except FieldTableError IndexedFieldTable :=
  match t.get? field.key with
  | some first => .error (.duplicateKey field.key first.pos field.pos)
  | none => .ok ⟨t.fields.push field, t.index.insert field.key t.fields.size⟩

def addFieldsWith (promote : List Field → IndexedFieldTable → Except FieldTableError IndexedFieldTable)
    (types : TypeTable) (tag : TagConfig) (fields : List Field) (t : IndexedFieldTable) :
    Except FieldTableError IndexedFieldTable :=
  fields.foldlM (fun t field =>
    if field.embedded then
      match types.structFields? field.type with
      | some inner => promote inner t
      | none => .ok t
    else t.insert (FieldTable.recordField types tag field)) t

/-- Adds the fields of a struct and of the structs embedded at most `depth` deep in it. -/
def addFields (types : TypeTable) (tag : TagConfig) :
    Nat → List Field → IndexedFieldTable → Except FieldTableError IndexedFieldTable
  | 0 => addFieldsWith (fun _ t => .ok t) types tag
  | depth + 1 => addFieldsWith (addFields types tag depth) types tag

def ofType (types : TypeTable) (tag : TagConfig) (id : TypeId) : Except FieldTableError IndexedFieldTable :=
  match types.structFields? id with
  | some fields => addFields types tag FieldTable.maxEmbedDepth fields {}
  | none => .error (.notAStruct (types.display id))

/-- The index has the keys of the fields, and no others. -/
def InStep (t : IndexedFieldTable) : Prop := t.index.Tracks (fun field => some field.key) t.fields

variable {t : IndexedFieldTable} {table : FieldTable} {types : TypeTable} {tag : TagConfig}

/-- A key leads to the field that a search of the fields finds. -/
theorem InStep.get?_eq (h : t.InStep) (key : String) : t.get? key = t.table.get? key := by
  rw [get?, FieldTable.get?, IndexedFieldTable.table, Array.find?_toList]
  exact h.getElem?_lookup_eq_find? fun field => by rw [beq_iff_eq, Option.some_inj]

theorem InStep.lookup_eq_none (h : t.InStep) {key : String} (hnew : t.get? key = none) : t.index.lookup key = none := by
  cases hlookup : t.index.lookup key with
  | none => rfl
  | some i =>
    obtain ⟨field, hfield, -⟩ := Option.bind_eq_some_iff.1 ((h key i).1 hlookup)
    rw [get?, hlookup, Option.bind_some, hfield] at hnew
    cases hnew

/-- The indexed table is in step and has the fields of the other one. -/
def Shows (t : IndexedFieldTable) (table : FieldTable) : Prop := t.InStep ∧ t.table = table

theorem ends_insert (h : t.Shows table) (field : RecordField) :
    EndTogether Shows Eq (t.insert field) (table.insert field) := by
  obtain ⟨hinStep, rfl⟩ := h
  rw [insert, FieldTable.insert, ← hinStep.get?_eq]
  cases hkey : t.get? field.key with
  | some first => exact .error rfl
  | none =>
    refine .ok ⟨Index.Tracks.push hinStep (hinStep.lookup_eq_none hkey) rfl, ?_⟩
    rw [IndexedFieldTable.table, Array.toList_push]
    rfl

/-- Members are added alike, if those of embedded structs are. -/
theorem ends_addFieldsWith {promote : List Field → IndexedFieldTable → Except FieldTableError IndexedFieldTable}
    {promote' : List Field → FieldTable → Except FieldTableError FieldTable}
    (hpromote : ∀ fields {t table}, t.Shows table → EndTogether Shows Eq (promote fields t) (promote' fields table))
    (fields : List Field) (h : t.Shows table) :
    EndTogether Shows Eq (addFieldsWith promote types tag fields t)
      (FieldTable.addFieldsWith promote' types tag fields table) := by
  refine .foldlM (R := Eq) (List.forall₂_refl fields) (fun t table field _ h heq => ?_) h
  subst heq
  split
  · cases types.structFields? field.type with
    | some inner => exact hpromote inner h
    | none => exact .ok h
  · exact ends_insert h _

theorem ends_addFields (depth : Nat) (fields : List Field) (h : t.Shows table) :
    EndTogether Shows Eq (addFields types tag depth fields t) (FieldTable.addFields types tag depth fields table) := by
  induction depth generalizing fields t table with
  | zero => exact ends_addFieldsWith (fun _ _ _ h => .ok h) fields h
  | succ depth ih => exact ends_addFieldsWith (fun fields _ _ h => ih fields h) fields h

/-- A record has a table with an index just where it has one without, with the same fields and with each key leading to
its field; and otherwise the same key is to blame. -/
theorem ends_ofType (types : TypeTable) (tag : TagConfig) (id : TypeId) :
    EndTogether Shows Eq (ofType types tag id) (FieldTable.ofType types tag id) := by
  unfold ofType FieldTable.ofType
  cases types.structFields? id with
  | some fields => exact ends_addFields _ fields ⟨Index.tracks_empty _, rfl⟩
  | none => exact .error rfl

end IndexedFieldTable

end FluentChain
