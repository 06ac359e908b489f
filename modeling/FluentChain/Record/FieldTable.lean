import FluentChain.Record.Tag
import FluentChain.Type.Display

/-!
# Field tables

The table of a struct type lists all fields that a value of the type answers to, those of embedded structs
included, each under a key: the alias that its tag gives it, or else its name.  No key may occur twice
(`FieldTable.insert`), so a struct with two fields of one key has no table.  A key is looked up by searching the fields;
a table that keeps an index of its keys answers alike (`IndexedFieldTable`).
-/

namespace FluentChain

/-- Which tag entry holds the attributes of a field, and which attribute is its alias. -/
structure TagConfig where
  key : String
  aliasName : String
deriving DecidableEq, Repr

/-- A field under its key.  `record` is the struct type that the field refers to, if it does. -/
structure RecordField where
  name : String
  key : String
  type : TypeId
  record : Option TypeId
  pos : Option Pos
deriving DecidableEq, Repr

/-- Why a type has no field table. -/
inductive FieldTableError
  | duplicateKey (key : String) (first second : Option Pos)
  | notAStruct (type : String)
deriving DecidableEq, Repr

namespace FieldTableError

def message : FieldTableError → String
  | .duplicateKey key _ _ => "duplicate key " ++ key
  | .notAStruct type => "type " ++ type ++ " is not a struct"

/-- Where the error is reported: at the second field with the key. -/
def pos : FieldTableError → Option Pos
  | .duplicateKey _ _ second => second
  | .notAStruct _ => none

/-- The declaration that the error refers to: the first field with the key. -/
def reference : FieldTableError → Option Pos
  | .duplicateKey _ first _ => first
  | .notAStruct _ => none

end FieldTableError

/-- The fields of a record, in the order they are declared in, those of an embedded struct in its place. -/
structure FieldTable where
  fields : List RecordField := []
deriving DecidableEq, Repr

namespace FieldTable

def get? (table : FieldTable) (key : String) : Option RecordField :=
  table.fields.find? (·.key == key)

def insert (table : FieldTable) (field : RecordField) : Except FieldTableError FieldTable :=
  match table.get? field.key with
  | some first => .error (.duplicateKey field.key first.pos field.pos)
  | none => .ok ⟨table.fields ++ [field]⟩

/-- The key of a field. -/
def keyOf (tag : TagConfig) (field : Field) : String :=
  let renamed := do
    let text ← field.tag
    let value ← Tag.lookup? text.toList tag.key
    Tag.findAttribute? value tag.aliasName
  renamed.getD field.name

/-- A field of a struct as a field of the record. -/
def recordField (types : TypeTable) (tag : TagConfig) (field : Field) : RecordField :=
  ⟨field.name, keyOf tag field, field.type, types.recordType? field.type, field.pos⟩

/-- How many structs deep embedded fields are followed. -/
def maxEmbedDepth : Nat := 32

/-- Adds the fields of a struct.  Those of embedded structs are added by `promote`, and an embedded field that
is no struct adds nothing. -/
def addFieldsWith (promote : List Field → FieldTable → Except FieldTableError FieldTable)
    (types : TypeTable) (tag : TagConfig) (fields : List Field) (table : FieldTable) :
    Except FieldTableError FieldTable :=
  fields.foldlM (fun table field =>
    if field.embedded then
      match types.structFields? field.type with
      | some inner => promote inner table
      | none => .ok table
    else table.insert (recordField types tag field)) table

/-- Adds the fields of a struct and of the structs embedded at most `depth` deep in it. -/
def addFields (types : TypeTable) (tag : TagConfig) :
    Nat → List Field → FieldTable → Except FieldTableError FieldTable
  | 0 => addFieldsWith (fun _ table => .ok table) types tag
  | depth + 1 => addFieldsWith (addFields types tag depth) types tag

/-- The field table of a type. -/
def ofType (types : TypeTable) (tag : TagConfig) (id : TypeId) : Except FieldTableError FieldTable :=
  match types.structFields? id with
  | some fields => addFields types tag maxEmbedDepth fields {}
  | none => .error (.notAStruct (types.display id))

end FieldTable

/-- Field tables, and failures to make one, that have been asked for.  An answer once given is kept. -/
structure FieldTableCache where
  tag : TagConfig
  answers : List (TypeId × Except FieldTableError FieldTable) := []

def FieldTableCache.resolve (cache : FieldTableCache) (types : TypeTable) (id : TypeId) :
    Except FieldTableError FieldTable × FieldTableCache :=
  match cache.answers.lookup id with
  | some answer => (answer, cache)
  | none =>
    let answer := FieldTable.ofType types cache.tag id
    (answer, { cache with answers := (id, answer) :: cache.answers })

end FluentChain
