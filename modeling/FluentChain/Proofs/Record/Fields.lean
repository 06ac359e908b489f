import FluentChain.Proofs.Ensures
import FluentChain.Record.FieldTable

/-!
# Records and their fields

The record type that a type refers to is a named type that is a struct under its names, and refers to itself
(`recordType?_self`, `recordType?_eq_self_iff`).  A field table is made by inserting one field after another, so
what every insertion keeps holds of the whole table (`FieldTable.ends_addFields`).
-/

namespace FluentChain

namespace TypeTable

variable {t : TypeTable} {id record : TypeId}

private theorem named_of_recordType? (h : t.recordType? id = some record) :
    (t.decl? record).isSome ∧ (t.structFields? record).isSome := by
  fun_induction recordType? t id with
  | case1 x elem hget hlt ih | case3 x elem hget hlt ih | case5 x elem hget hlt ih => exact ih h
  | case7 x decl hget hstruct =>
    cases h
    exact ⟨by simp [decl?, hget], hstruct⟩
  | _ => cases h

private theorem recordType?_of_named (hdecl : (t.decl? id).isSome) (hstruct : (t.structFields? id).isSome) :
    t.recordType? id = some id := by
  unfold decl? at hdecl
  rw [recordType?]
  split at hdecl
  · rename_i decl hget
    simp only [hget, hstruct, if_true]
  · cases hdecl

theorem recordType?_eq_self_iff :
    t.recordType? id = some id ↔ (t.decl? id).isSome ∧ (t.structFields? id).isSome :=
  ⟨named_of_recordType?, fun h => recordType?_of_named h.1 h.2⟩

/-- What a type refers to is a record, which refers to itself. -/
theorem recordType?_self (h : t.recordType? id = some record) : t.recordType? record = some record :=
  recordType?_eq_self_iff.2 (named_of_recordType? h)

/-- The field belongs to a struct of the table. -/
def HasField (t : TypeTable) (f : Field) : Prop := ∃ id fields, t.structFields? id = some fields ∧ f ∈ fields

end TypeTable

namespace FieldTable

variable {types : TypeTable} {tag : TagConfig}

section

variable {P : FieldTable → Prop} {E : FieldTableError → Prop}

private theorem ends_addFieldsWith
    {promote : List Field → FieldTable → Except FieldTableError FieldTable}
    (hinsert : ∀ table field, types.HasField field → P table → Ends P E (table.insert (recordField types tag field)))
    (hpromote : ∀ fields table, (∀ f ∈ fields, types.HasField f) → P table → Ends P E (promote fields table))
    {fields : List Field} (hfields : ∀ f ∈ fields, types.HasField f) {table : FieldTable} (h : P table) :
    Ends P E (addFieldsWith promote types tag fields table) := by
  refine Ends.foldlM (fun table field hfield htable => ?_) h
  split
  · split
    · rename_i inner hinner
      exact hpromote inner table (fun f hf => ⟨field.type, inner, hinner, hf⟩) htable
    · exact htable
  · exact hinsert table field (hfields field hfield) htable

/-- What holds of a table, and is kept by the insertion of any field of a struct, holds of the table with the fields of
a struct added; and a failure is the failure of an insertion. -/
theorem ends_addFields
    (hinsert : ∀ table field, types.HasField field → P table → Ends P E (table.insert (recordField types tag field)))
    (depth : Nat) {fields : List Field} (hfields : ∀ f ∈ fields, types.HasField f) {table : FieldTable} (h : P table) :
    Ends P E (addFields types tag depth fields table) := by
  induction depth generalizing fields table with
  | zero =>
    have hpromote : ∀ (fields : List Field) (table : FieldTable), (∀ f ∈ fields, types.HasField f) → P table →
      Ends P E (.ok table) := fun _ _ _ h => h
    exact ends_addFieldsWith hinsert hpromote hfields h
  | succ depth ih => exact ends_addFieldsWith hinsert (fun _ _ hfields h => ih hfields h) hfields h

theorem ends_ofType {id : TypeId} (hid : (types.structFields? id).isSome)
    (hinsert : ∀ table field, types.HasField field → P table → Ends P E (table.insert (recordField types tag field)))
    (h : P {}) : Ends P E (ofType types tag id) := by
  obtain ⟨fields, hfields⟩ := Option.isSome_iff_exists.1 hid
  unfold ofType
  simp only [hfields]
  exact ends_addFields hinsert maxEmbedDepth (fun f hf => ⟨id, fields, hfields, hf⟩) h

end

theorem mem_of_get? {table : FieldTable} {key : String} {field : RecordField}
    (h : table.get? key = some field) : field ∈ table.fields := List.mem_of_find?_eq_some h

/-- Every field of a table carries the record type that its own type refers to. -/
theorem record_of_mem_ofType {id : TypeId} {table : FieldTable} (h : ofType types tag id = .ok table)
    {field : RecordField} (hfield : field ∈ table.fields) :
    field.record = types.recordType? field.type := by
  have hid : (types.structFields? id).isSome := by
    unfold ofType at h
    split at h
    · rename_i fields hfields
      simp [hfields]
    · cases h
  have hinsert : ∀ (table : FieldTable) (new : Field), types.HasField new →
      (∀ f ∈ table.fields, f.record = types.recordType? f.type) →
      Ends (fun table : FieldTable => ∀ f ∈ table.fields, f.record = types.recordType? f.type)
        (fun _ => True) (table.insert (recordField types tag new)) := by
    intro table new _ htable
    unfold insert
    split
    · trivial
    · intro f hf
      rcases List.mem_append.1 hf with hf | hf
      · exact htable f hf
      · rw [List.mem_singleton.1 hf]
        rfl
  have hends := ends_ofType hid hinsert (by simp)
  rw [h] at hends
  exact hends field hfield

/-- A struct has no field table only where two of its fields have one key. -/
theorem duplicateKey_of_ofType {id : TypeId} (hid : (types.structFields? id).isSome) {e : FieldTableError}
    (h : ofType types tag id = .error e) : ∃ key first second, e = .duplicateKey key first second := by
  have hinsert : ∀ (table : FieldTable) (new : Field), types.HasField new → True →
      Ends (fun _ => True) (fun e => ∃ key first second, e = .duplicateKey key first second)
        (table.insert (recordField types tag new)) := by
    intro table new _ _
    unfold insert
    split
    · exact ⟨_, _, _, rfl⟩
    · trivial
  have hends := ends_ofType hid hinsert trivial
  rw [h] at hends
  exact hends

end FieldTable

end FluentChain
