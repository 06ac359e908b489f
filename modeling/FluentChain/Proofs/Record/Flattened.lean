import Mathlib.Data.List.Nodup
import FluentChain.Proofs.Ensures
import FluentChain.Record.FieldTable

/-!
# Flattened structs

A struct with embedded structs stands for one list of fields, those of an embedded struct in its place
(`TypeTable.promoted`).  Making its field table inserts this list from the left (`FieldTable.addFields_eq`), so there
is a table just where no key occurs twice in the list, and it holds the list; otherwise the first field whose key has
occurred before is to blame, with the field that had the key (`FirstRepeat`).

Answers that are kept are those that would be given anew (`FieldTableCache.resolve_flattened`).
-/

namespace FluentChain

/-- The fields that a struct promotes, in the order they are declared in: its own, and in the place of an embedded
struct the fields that this one promotes.  Structs more than `depth` deep and other embedded members promote nothing. -/
def TypeTable.promoted (t : TypeTable) : Nat → List Field → List Field
  | 0, fields => fields.filter (!·.embedded)
  | depth + 1, fields => fields.flatMap fun f =>
    if f.embedded then
      match t.structFields? f.type with
      | some inner => t.promoted depth inner
      | none => []
    else [f]

/-- Members that are not embedded stand for themselves. -/
theorem TypeTable.flatMap_of_embedded_nil {fields : List Field} {inner : Field → List Field}
    (h : ∀ f ∈ fields, f.embedded = true → inner f = []) :
    (fields.flatMap fun f => if f.embedded then inner f else [f]) = fields.filter (!·.embedded) := by
  induction fields with
  | nil => rfl
  | cons f fields ih =>
    rw [List.flatMap_cons, ih fun g hg => h g (by simp [hg]), List.filter_cons]
    by_cases hf : f.embedded = true
    · simp [hf, h f (by simp) hf]
    · simp [hf]

namespace FieldTable

variable {types : TypeTable} {tag : TagConfig}

/-- The fields that a value of a struct type answers to, each under its key. -/
def flattened (types : TypeTable) (tag : TagConfig) (fields : List Field) : List RecordField :=
  (types.promoted maxEmbedDepth fields).map (recordField types tag)

/-- The field `second` is the first in the list with a key that occurs before it, and `first` is the field that has
the key there. -/
def FirstRepeat (fields : List RecordField) (first second : RecordField) : Prop :=
  ∃ before after, fields = before ++ second :: after ∧ (before.map (·.key)).Nodup ∧
    first ∈ before ∧ first.key = second.key

/-- Inserts fields one after another. -/
def insertAll (table : FieldTable) (fields : List RecordField) : Except FieldTableError FieldTable :=
  fields.foldlM insert table

theorem insertAll_append (table : FieldTable) (before after : List RecordField) :
    table.insertAll (before ++ after) = table.insertAll before >>= (·.insertAll after) :=
  List.foldlM_append

/-- Members that are added one after another are all inserted, if each of them is. -/
theorem addFieldsWith_eq {promote : List Field → FieldTable → Except FieldTableError FieldTable}
    (inner : List Field → List Field)
    (hpromote : ∀ fields (table : FieldTable),
      promote fields table = table.insertAll ((inner fields).map (recordField types tag)))
    (fields : List Field) (table : FieldTable) :
    addFieldsWith promote types tag fields table =
      table.insertAll ((fields.flatMap fun f =>
        if f.embedded then
          match types.structFields? f.type with
          | some members => inner members
          | none => []
        else [f]).map (recordField types tag)) := by
  induction fields generalizing table with
  | nil => rfl
  | cons f fields ih =>
    unfold addFieldsWith at ih ⊢
    rw [List.foldlM_cons, List.flatMap_cons, List.map_append, insertAll_append]
    simp only [ih]
    congr 1
    by_cases hembedded : f.embedded = true
    · simp only [hembedded, if_true]
      cases types.structFields? f.type with
      | none => rfl
      | some members => exact hpromote members table
    · simp only [hembedded, Bool.false_eq_true, if_false]
      exact (bind_pure _).symm

/-- A field table is made by inserting the promoted fields from the left. -/
theorem addFields_eq (depth : Nat) (fields : List Field) (table : FieldTable) :
    addFields types tag depth fields table =
      table.insertAll ((types.promoted depth fields).map (recordField types tag)) := by
  induction depth generalizing fields table with
  | zero =>
    have hnothing : ∀ (members : List Field) (table : FieldTable),
        (fun _ table => .ok table : List Field → FieldTable → Except FieldTableError FieldTable) members table =
          table.insertAll (([] : List Field).map (recordField types tag)) := fun _ _ => rfl
    have hplain : (fields.flatMap fun f =>
        if f.embedded then
          match types.structFields? f.type with
          | some _ => []
          | none => []
        else [f]) = fields.filter (!·.embedded) :=
      TypeTable.flatMap_of_embedded_nil fun f _ _ => by cases types.structFields? f.type <;> rfl
    rw [addFields, addFieldsWith_eq (fun _ => []) hnothing, hplain]
    rfl
  | succ depth ih =>
    have hinner : ∀ (members : List Field) (table : FieldTable), addFields types tag depth members table =
        table.insertAll ((types.promoted depth members).map (recordField types tag)) := fun members table =>
      ih members table
    exact addFieldsWith_eq (types.promoted depth) hinner fields table

/-! ### Keys -/

/-- A repeated key is a repetition. -/
theorem FirstRepeat.not_nodup {fields : List RecordField} {first second : RecordField}
    (h : FirstRepeat fields first second) : ¬ (fields.map (·.key)).Nodup := by
  obtain ⟨before, after, rfl, -, hfirst, hkey⟩ := h
  intro hnodup
  rw [List.map_append, List.nodup_append] at hnodup
  have hmem : first.key ∈ before.map (·.key) := List.mem_map_of_mem hfirst
  exact hnodup.2.2 first.key hmem second.key (by simp) hkey

theorem get?_eq_some_iff {table : FieldTable} (hnodup : (table.fields.map (·.key)).Nodup) {key : String}
    {field : RecordField} : table.get? key = some field ↔ field ∈ table.fields ∧ field.key = key := by
  have hkeyOf : ∀ {found}, table.get? key = some found → found ∈ table.fields ∧ found.key = key := by
    intro found h
    have hkey := List.find?_some h
    exact ⟨List.mem_of_find?_eq_some h, by simpa using hkey⟩
  constructor
  · exact hkeyOf
  · rintro ⟨hfield, hkey⟩
    have hsome : (table.get? key).isSome := List.find?_isSome.2 ⟨field, hfield, beq_iff_eq.2 hkey⟩
    obtain ⟨found, hfound⟩ := Option.isSome_iff_exists.1 hsome
    obtain ⟨hmem, hfoundKey⟩ := hkeyOf hfound
    rw [hfound, List.inj_on_of_nodup_map hnodup hmem hfield (hfoundKey.trans hkey.symm)]

/-- Inserting fields behind those of a table succeeds where no key repeats, and stops at the first that does. -/
theorem ends_insertAll {table : FieldTable} (hnodup : (table.fields.map (·.key)).Nodup) (fields : List RecordField) :
    Ends (fun made => ((table.fields ++ fields).map (·.key)).Nodup ∧ made.fields = table.fields ++ fields)
      (fun e => ∃ first second, FirstRepeat (table.fields ++ fields) first second ∧
        e = .duplicateKey second.key first.pos second.pos) (table.insertAll fields) := by
  induction fields generalizing table with
  | nil =>
    rw [List.append_nil]
    exact ⟨hnodup, rfl⟩
  | cons f fields ih =>
    have hstep : Ends (fun next => (next.fields.map (·.key)).Nodup ∧ next.fields = table.fields ++ [f])
        (fun e => ∃ first second, FirstRepeat (table.fields ++ f :: fields) first second ∧
          e = .duplicateKey second.key first.pos second.pos) (table.insert f) := by
      unfold insert
      cases hfirst : table.get? f.key with
      | some first =>
        obtain ⟨hmem, hkey⟩ := (get?_eq_some_iff hnodup).1 hfirst
        exact ⟨first, f, ⟨table.fields, fields, rfl, hnodup, hmem, hkey⟩, rfl⟩
      | none =>
        have hnew : f.key ∉ table.fields.map (·.key) := by
          intro hmem
          obtain ⟨g, hg, hkey⟩ := List.mem_map.1 hmem
          rw [(get?_eq_some_iff hnodup).2 ⟨hg, hkey⟩] at hfirst
          cases hfirst
        refine ⟨?_, rfl⟩
        rw [List.map_append, List.map_singleton, ← List.concat_eq_append]
        exact hnodup.concat hnew
    unfold insertAll
    rw [List.foldlM_cons]
    refine hstep.bind fun next hnext => ?_
    obtain ⟨hnextNodup, hnextFields⟩ := hnext
    have hrest := ih hnextNodup
    rw [hnextFields, List.append_assoc] at hrest
    exact hrest

theorem ends_ofType_flattened (tag : TagConfig) {id : TypeId} {fields : List Field}
    (hid : types.structFields? id = some fields) :
    Ends (fun made => ((flattened types tag fields).map (·.key)).Nodup ∧ made.fields = flattened types tag fields)
      (fun e => ∃ first second, FirstRepeat (flattened types tag fields) first second ∧
        e = .duplicateKey second.key first.pos second.pos) (ofType types tag id) := by
  have hempty : ((({} : FieldTable).fields).map (·.key)).Nodup := List.nodup_nil
  have hends := ends_insertAll hempty (flattened types tag fields)
  unfold ofType
  simp only [hid, addFields_eq]
  exact hends

/-- The table of a struct holds its flattened fields, and there are no two of one key. -/
theorem fields_of_ofType {id : TypeId} {fields : List Field} (hid : types.structFields? id = some fields)
    {table : FieldTable} (h : ofType types tag id = .ok table) :
    table.fields = flattened types tag fields ∧ (table.fields.map (·.key)).Nodup := by
  have hends := ends_ofType_flattened tag hid
  rw [h] at hends
  obtain ⟨hnodup, hfields⟩ := hends
  exact ⟨hfields, hfields ▸ hnodup⟩

end FieldTable

/-! ### Kept answers -/

namespace FieldTableCache

variable {types : TypeTable}

/-- A cache that has not been asked for anything. -/
def fresh (tag : TagConfig) : FieldTableCache := ⟨tag, []⟩

/-- The cache after it has been asked for some types, one after another. -/
def after (cache : FieldTableCache) (types : TypeTable) (ids : List TypeId) : FieldTableCache :=
  ids.foldl (fun cache id => (cache.resolve types id).2) cache

/-- Every answer that is kept is the one that would be given anew. -/
structure Faithful (types : TypeTable) (tag : TagConfig) (cache : FieldTableCache) : Prop where
  config : cache.tag = tag
  answers : ∀ {id answer}, cache.answers.lookup id = some answer → answer = FieldTable.ofType types tag id

theorem faithful_fresh (types : TypeTable) (tag : TagConfig) : (fresh tag).Faithful types tag :=
  ⟨rfl, by simp [fresh]⟩

/-- A faithful cache answers as if it had kept nothing. -/
theorem Faithful.resolve_fst {cache : FieldTableCache} {tag : TagConfig} (h : cache.Faithful types tag) (id : TypeId) :
    (cache.resolve types id).1 = FieldTable.ofType types tag id := by
  unfold resolve
  cases hanswer : cache.answers.lookup id with
  | some answer => exact h.answers hanswer
  | none => rw [h.config]

theorem Faithful.resolve_snd {cache : FieldTableCache} {tag : TagConfig} (h : cache.Faithful types tag) (id : TypeId) :
    (cache.resolve types id).2.Faithful types tag := by
  unfold resolve
  cases hanswer : cache.answers.lookup id with
  | some answer => exact h
  | none =>
    refine ⟨h.config, fun {id' answer'} hlookup => ?_⟩
    rw [List.lookup_cons] at hlookup
    by_cases hid : id' = id
    · subst hid
      rw [beq_self_eq_true, h.config] at hlookup
      exact (Option.some.inj hlookup).symm
    · have hne : (id' == id) = false := beq_eq_false_iff_ne.2 hid
      rw [hne] at hlookup
      exact h.answers hlookup

theorem Faithful.after {cache : FieldTableCache} {tag : TagConfig} (h : cache.Faithful types tag)
    (ids : List TypeId) : (cache.after types ids).Faithful types tag := by
  induction ids generalizing cache with
  | nil => exact h
  | cons id ids ih => exact ih (h.resolve_snd id)

/-- A struct type has a field table just where no key occurs twice in its flattened fields.  The table lists these
fields, and under a key it has the one of them with that key.  Where a key repeats, the error names the first field
whose key has occurred before and the field that had the key.  Whatever a cache has been asked for, it answers as a
fresh one does. -/
theorem resolve_flattened (types : TypeTable) (tag : TagConfig) :
    (∀ id fields, types.structFields? id = some fields →
      ((∃ table, ((fresh tag).resolve types id).1 = .ok table) ↔
        ((FieldTable.flattened types tag fields).map (·.key)).Nodup) ∧
      (∀ table, ((fresh tag).resolve types id).1 = .ok table →
        table.fields = FieldTable.flattened types tag fields ∧
        ∀ key field, table.get? key = some field ↔
          field ∈ FieldTable.flattened types tag fields ∧ field.key = key) ∧
      (¬ ((FieldTable.flattened types tag fields).map (·.key)).Nodup →
        ∃ first second, FieldTable.FirstRepeat (FieldTable.flattened types tag fields) first second ∧
          ((fresh tag).resolve types id).1 = .error (.duplicateKey second.key first.pos second.pos))) ∧
    ∀ ids id, (((fresh tag).after types ids).resolve types id).1 = ((fresh tag).resolve types id).1 := by
  have hfresh := faithful_fresh types tag
  refine ⟨?_, fun ids id => ?_⟩
  · intro id fields hid
    have hends := FieldTable.ends_ofType_flattened tag hid
    rw [hfresh.resolve_fst id]
    refine ⟨⟨?_, ?_⟩, ?_, ?_⟩
    · rintro ⟨table, htable⟩
      rw [htable] at hends
      exact hends.1
    · intro hnodup
      cases hresult : FieldTable.ofType types tag id with
      | ok table => exact ⟨table, rfl⟩
      | error e =>
        rw [hresult] at hends
        obtain ⟨first, second, hrepeat, -⟩ := hends
        exact absurd hnodup hrepeat.not_nodup
    · intro table htable
      obtain ⟨hfields, hnodup⟩ := FieldTable.fields_of_ofType hid htable
      refine ⟨hfields, fun key field => ?_⟩
      rw [← hfields]
      exact FieldTable.get?_eq_some_iff hnodup
    · intro hrepeats
      cases hresult : FieldTable.ofType types tag id with
      | ok table =>
        rw [hresult] at hends
        exact absurd hends.1 hrepeats
      | error e =>
        rw [hresult] at hends
        obtain ⟨first, second, hrepeat, rfl⟩ := hends
        exact ⟨first, second, hrepeat, rfl⟩
  · rw [(hfresh.after ids).resolve_fst id, hfresh.resolve_fst id]

end FieldTableCache

/-! ### Two embeddings -/

/-- A house has the city of its plot between two fields of its own.  An office would have two cities: that of its plot
and, by its tag, its site. -/
def TypeTable.plots : TypeTable where
  entries := #[.named ⟨"House", none, some 3, []⟩, .named ⟨"Plot", none, some 4, []⟩,
    .named ⟨"Office", none, some 5, []⟩,
    .struct [⟨"Name", 6, false, none, none⟩, ⟨"Plot", 1, true, none, none⟩,
      ⟨"Rooms", 6, false, some "db:\"name:size\"", none⟩],
    .struct [⟨"City", 6, false, none, some ⟨0, 4, 2⟩⟩],
    .struct [⟨"Plot", 1, true, none, none⟩, ⟨"Site", 6, false, some "db:\"name:City\"", some ⟨0, 8, 2⟩⟩],
    .basic "string"]

theorem FieldTableCache.resolve_flattened_plots :
    TypeTable.plots.structFields? 0 = some [⟨"Name", 6, false, none, none⟩, ⟨"Plot", 1, true, none, none⟩,
      ⟨"Rooms", 6, false, some "db:\"name:size\"", none⟩] ∧
    (∃ table, ((fresh ⟨"db", "name"⟩).resolve .plots 0).1 = .ok table ∧
      table.fields.map (·.key) = ["Name", "City", "size"]) ∧
    TypeTable.plots.structFields? 2 = some [⟨"Plot", 1, true, none, none⟩,
      ⟨"Site", 6, false, some "db:\"name:City\"", some ⟨0, 8, 2⟩⟩] ∧
    ∃ first second : RecordField, ((fresh ⟨"db", "name"⟩).resolve .plots 2).1 =
      .error (.duplicateKey second.key first.pos second.pos) := by
  have hkeys : (FieldTable.flattened .plots ⟨"db", "name"⟩ [⟨"Name", 6, false, none, none⟩,
      ⟨"Plot", 1, true, none, none⟩, ⟨"Rooms", 6, false, some "db:\"name:size\"", none⟩]).map (·.key) =
        ["Name", "City", "size"] ∧
      ¬ ((FieldTable.flattened .plots ⟨"db", "name"⟩ [⟨"Plot", 1, true, none, none⟩,
        ⟨"Site", 6, false, some "db:\"name:City\"", some ⟨0, 8, 2⟩⟩]).map (·.key)).Nodup := by
    decide +kernel
  obtain ⟨hstructs, -⟩ := resolve_flattened .plots ⟨"db", "name"⟩
  obtain ⟨hbuilds, hlists, -⟩ := hstructs 0 _ rfl
  obtain ⟨-, -, hfails⟩ := hstructs 2 _ rfl
  obtain ⟨table, htable⟩ := hbuilds.2 (by rw [hkeys.1]; decide)
  obtain ⟨first, second, -, herror⟩ := hfails hkeys.2
  refine ⟨rfl, ⟨table, htable, ?_⟩, rfl, first, second, herror⟩
  rw [(hlists table htable).1]
  exact hkeys.1

end FluentChain
