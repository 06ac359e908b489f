import FluentChain.Proofs.Index
import FluentChain.Proofs.Related
import FluentChain.Proofs.Type.Shape

/-!
# Tables with indexes

A table of types is not searched from its start: one index has the names that are declared, and another has for each
shared type what it is made of, its key (`TypeKey`).  Looking a type up and adding it go through these indexes
(`IndexedTypes`), and so does the walk through a type expression, which may stop on its way and then leaves what it has
added.

Each step keeps table and indexes in step (`IndexedTypes.InStep`) and does to the table what the step of `TypeTable`
does, which searches.
-/

namespace FluentChain

/-- What tells a shared type from all others: its kind, with its name or the types that it is made of. -/
inductive TypeKey
  | basic (name : String)
  | pointer (elem : TypeId)
  | slice (elem : TypeId)
  | array (elem : TypeId)
  | map (key value : TypeId)
  | interface
deriving DecidableEq, Repr

/-- The type with this key. -/
def TypeKey.type : TypeKey → Ty
  | .basic name => .basic name
  | .pointer elem => .pointer elem
  | .slice elem => .slice elem
  | .array elem => .array elem
  | .map key value => .map key value
  | .interface => .interface

theorem TypeKey.type_ne_named {key : TypeKey} {decl : NamedType} : key.type ≠ .named decl := by
  cases key <;> nofun

namespace Ty

/-- The key of a shared type. -/
def key? : Ty → Option TypeKey
  | .basic name => some (.basic name)
  | .pointer elem => some (.pointer elem)
  | .slice elem => some (.slice elem)
  | .array elem => some (.array elem)
  | .map key value => some (.map key value)
  | .interface => some .interface
  | .named _ | .struct _ | .signature _ => none

/-- The name of a named type. -/
def name? : Ty → Option String
  | .named decl => some decl.name
  | _ => none

variable {ty : Ty} {key : TypeKey} {name : String}

theorem key?_eq_some_iff : ty.key? = some key ↔ ty = key.type := by
  cases ty <;> cases key <;> simp [key?, TypeKey.type]

theorem IsShared.exists_key (h : ty.IsShared) : ∃ key, ty.key? = some key := by
  cases ty with
  | named | struct | signature => cases h
  | basic | pointer | slice | array | map | interface => exact ⟨_, rfl⟩

theorem name?_eq_none_of_key? (h : ty.key? = some key) : ty.name? = none := by
  rw [key?_eq_some_iff.1 h]
  cases key <;> rfl

theorem name?_eq_some_iff : ty.name? = some name ↔ ∃ decl, ty = .named decl ∧ decl.name = name := by
  cases ty <;> simp [name?]

theorem declares_iff : TypeTable.declares name ty = true ↔ ty.name? = some name := by
  cases ty <;> simp [TypeTable.declares, name?]

end Ty

/-- A table of types with its indexes. -/
structure IndexedTypes extends TypeTable where
  named : Index String := ∅
  interned : Index TypeKey := ∅

namespace IndexedTypes

/-- Adds a type under the next free index, without a look at the indexes. -/
def push (t : IndexedTypes) (ty : Ty) : TypeId × IndexedTypes :=
  (t.size, { t with entries := t.entries.push ty })

/-- The index of a shared type, which is added and entered where the index does not have it.  Any other type is
added. -/
def intern (t : IndexedTypes) (ty : Ty) : TypeId × IndexedTypes :=
  match ty.key? with
  | none => t.push ty
  | some key =>
    match t.interned.lookup key with
    | some id => (id, t)
    | none =>
      let (id, pushed) := t.push ty
      (id, { pushed with interned := t.interned.insert key id })

/-- The type declared under a name. -/
def named? (t : IndexedTypes) (name : String) : Option TypeId := t.named.lookup name

/-- Changes the declaration of a named type. -/
def modifyDecl (t : IndexedTypes) (id : TypeId) (f : NamedType → NamedType) : IndexedTypes :=
  { t with toTypeTable := t.toTypeTable.modifyDecl id f }

/-- Declares a name, which is entered where the index does not have it. -/
def declare (t : IndexedTypes) (name : String) (pos : Option Pos) : TypeId × IndexedTypes :=
  match t.named? name with
  | some id => (id, t.modifyDecl id fun decl => { decl with pos := decl.pos <|> pos })
  | none =>
    let (id, pushed) := t.push (.named ⟨name, pos, none, []⟩)
    (id, { pushed with named := t.named.insert name id })

/-- The pointer to a type, if the index has it. -/
def pointerTo? (t : IndexedTypes) (elem : TypeId) : Option TypeId := t.interned.lookup (.pointer elem)

end IndexedTypes

/-- The type a shape stands for, looked up and added through the indexes. -/
def TypeExpr.resolveIndexed : TypeExpr → EStateM TypeExprError IndexedTypes TypeId
  | .pointer elem => do
    let elem ← elem.resolveIndexed
    modifyGet (·.intern (.pointer elem))
  | .slice elem => do
    let elem ← elem.resolveIndexed
    modifyGet (·.intern (.slice elem))
  | .array elem => do
    let elem ← elem.resolveIndexed
    modifyGet (·.intern (.array elem))
  | .map key value => do
    let key ← key.resolveIndexed
    let value ← value.resolveIndexed
    modifyGet (·.intern (.map key value))
  | .interface => modifyGet (·.intern .interface)
  | .basic name => modifyGet (·.intern (.basic name))
  | .declared name => do
    match (← get).named? name with
    | some id => return id
    | none =>
      if '.' ∈ name.toList then modifyGet (·.declare name none)
      else throw (.unknown name)
  | .malformed text flaw => throw (.malformed text flaw)

namespace IndexedTypes

variable {t : IndexedTypes} {ty : Ty} {name : String}

/-- The indexes have the names and the keys of the types in the table, and no others. -/
structure InStep (t : IndexedTypes) : Prop where
  named : t.named.Tracks Ty.name? t.entries
  interned : t.interned.Tracks Ty.key? t.entries

theorem inStep_empty : InStep {} := ⟨Index.tracks_empty _, Index.tracks_empty _⟩

/-- The index of names and the table are inverse to each other. -/
theorem InStep.lookup_named_iff (h : t.InStep) (name : String) (id : TypeId) :
    t.named.lookup name = some id ↔ ∃ decl, t.get? id = some (.named decl) ∧ decl.name = name := by
  rw [h.named name id, Option.bind_eq_some_iff]
  constructor
  · rintro ⟨ty, hid, hty⟩
    obtain ⟨decl, rfl, hname⟩ := Ty.name?_eq_some_iff.1 hty
    exact ⟨decl, hid, hname⟩
  · rintro ⟨decl, hid, rfl⟩
    exact ⟨.named decl, hid, rfl⟩

/-- The index of keys and the table are inverse to each other. -/
theorem InStep.lookup_interned_iff (h : t.InStep) (key : TypeKey) (id : TypeId) :
    t.interned.lookup key = some id ↔ t.get? id = some key.type := by
  rw [h.interned key id, Option.bind_eq_some_iff]
  constructor
  · rintro ⟨ty, hid, hkey⟩
    rw [← Ty.key?_eq_some_iff.1 hkey]
    exact hid
  · intro hid
    exact ⟨key.type, hid, Ty.key?_eq_some_iff.2 rfl⟩

/-- A name is found in its index just where a search of the table finds it. -/
theorem InStep.named?_eq (h : t.InStep) (name : String) : t.named? name = t.toTypeTable.named? name :=
  h.named.lookup_eq_findIdx? fun _ => Ty.declares_iff

/-- A key is found in its index just where a search of the table finds its type. -/
theorem InStep.lookup_interned (h : t.InStep) {key : TypeKey} (hkey : ty.key? = some key) :
    t.interned.lookup key = t.find? ty := by
  refine h.interned.lookup_eq_findIdx? fun other => ?_
  rw [decide_eq_true_iff, Ty.key?_eq_some_iff, ← Ty.key?_eq_some_iff.1 hkey]

/-- A pointer is found in the index just where a search of the table finds it. -/
theorem InStep.pointerTo?_eq (h : t.InStep) (elem : TypeId) : t.pointerTo? elem = t.toTypeTable.pointerTo? elem :=
  h.lookup_interned rfl

/-! ### Steps -/

/-- The step `step` keeps the indexes in step, and does to the table what `step'` does. -/
def Performs {α : Type} (step : IndexedTypes → α × IndexedTypes) (step' : TypeTable → α × TypeTable) : Prop :=
  ∀ t : IndexedTypes, t.InStep →
    (step t).2.InStep ∧ step' t.toTypeTable = ((step t).1, (step t).2.toTypeTable)

/-- A type that is neither named nor shared is entered nowhere. -/
theorem performs_push (hname : ty.name? = none) (hkey : ty.key? = none) : Performs (·.push ty) (·.push ty) :=
  fun _ h => ⟨⟨h.named.push_keyless hname, h.interned.push_keyless hkey⟩, rfl⟩

theorem performs_intern (hty : ty.IsShared) : Performs (·.intern ty) (·.intern ty) := by
  intro t h
  obtain ⟨key, hkey⟩ := hty.exists_key
  have hfind := h.lookup_interned hkey
  simp only [intern, TypeTable.intern, hkey, ← hfind]
  cases hlookup : t.interned.lookup key with
  | some id => exact ⟨h, rfl⟩
  | none =>
    exact ⟨⟨h.named.push_keyless (Ty.name?_eq_none_of_key? hkey), h.interned.push hlookup hkey⟩, rfl⟩

/-- Names and keys stay where a declaration keeps its name. -/
theorem InStep.modifyDecl (h : t.InStep) (id : TypeId) {f : NamedType → NamedType} (hf : ∀ d, (f d).name = d.name) :
    (t.modifyDecl id f).InStep := by
  constructor
  · refine h.named.modify id fun ty => ?_
    cases ty with
    | named decl => exact congrArg some (hf decl)
    | _ => rfl
  · refine h.interned.modify id fun ty => ?_
    cases ty <;> rfl

theorem performs_declare (name : String) (pos : Option Pos) : Performs (·.declare name pos) (·.declare name pos) := by
  intro t h
  have hnamed := h.named?_eq name
  simp only [declare, TypeTable.declare, ← hnamed]
  cases hlookup : t.named? name with
  | some id => exact ⟨h.modifyDecl id fun _ => rfl, rfl⟩
  | none => exact ⟨⟨h.named.push hlookup rfl, h.interned.push_keyless rfl⟩, rfl⟩

/-! ### Type expressions -/

/-- The walk through a type expression finds and adds the same types by the indexes as by searches, and it stops with
the same error. -/
theorem mirrors_resolve (e : TypeExpr) : Mirrors toTypeTable InStep e.resolveIndexed e.resolve := by
  induction e with
  | pointer elem ih | slice elem ih | array elem ih => exact ih.bind fun _ => .modifyGet (performs_intern trivial)
  | map key value ihk ihv => exact ihk.bind fun _ => ihv.bind fun _ => .modifyGet (performs_intern trivial)
  | interface | basic => exact .modifyGet (performs_intern trivial)
  | declared name =>
    refine .get_bind fun t h => ?_
    simp only [← h.named?_eq]
    cases t.named? name with
    | some id => exact .ok h rfl
    | none =>
      dsimp only
      split
      · have hdeclare : Mirrors toTypeTable InStep (MonadState.modifyGet (·.declare name none) :
            EStateM TypeExprError IndexedTypes TypeId) (MonadState.modifyGet (·.declare name none)) :=
          .modifyGet (performs_declare name none)
        exact hdeclare t h
      · exact .error h rfl
  | malformed => exact .throw _

end IndexedTypes

end FluentChain
