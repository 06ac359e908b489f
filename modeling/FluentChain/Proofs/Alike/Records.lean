import FluentChain.Diagnostic.Basic
import FluentChain.Proofs.Alike.Programs

/-!
# Field tables and diagnostics of programs that are alike

A record type has the same field table in two programs that are alike, or it has none in both and for the same
reason (`FieldTable.ofType_alike`).  Diagnostics are the same if they say the same of the same places, and then they
have one message (`SameDiagnostic.message`).
-/

namespace FluentChain

variable {R : Pos → Pos → Prop} {t u : TypeTable} {a b : TypeId}

/-! ### Field tables -/

structure SameRecordField (R : Pos → Pos → Prop) (t u : TypeTable) (f g : RecordField) : Prop where
  name : f.name = g.name
  key : f.key = g.key
  type : t.SameShape u f.type g.type
  record : Option.Rel (t.SameShape u) f.record g.record
  pos : Option.Rel R f.pos g.pos

inductive SameTableError (R : Pos → Pos → Prop) : FieldTableError → FieldTableError → Prop
  | duplicateKey (key : String) {first first' second second' : Option Pos} (hfirst : Option.Rel R first first')
    (hsecond : Option.Rel R second second') :
    SameTableError R (.duplicateKey key first second) (.duplicateKey key first' second')
  | notAStruct (type : String) : SameTableError R (.notAStruct type) (.notAStruct type)

def SameTable (R : Pos → Pos → Prop) (t u : TypeTable) (table table' : FieldTable) : Prop :=
  List.Forall₂ (SameRecordField R t u) table.fields table'.fields

namespace SameTableError

variable {e e' : FieldTableError} (h : SameTableError R e e')

include h

theorem pos : Option.Rel R e.pos e'.pos := by
  cases h with
  | duplicateKey key hfirst hsecond => exact hsecond
  | notAStruct => exact .none

theorem reference : Option.Rel R e.reference e'.reference := by
  cases h with
  | duplicateKey key hfirst hsecond => exact hfirst
  | notAStruct => exact .none

end SameTableError

namespace FieldTable

variable {table table' : FieldTable}

theorem get?_alike (h : SameTable R t u table table') (key : String) :
    Option.Rel (SameRecordField R t u) (table.get? key) (table'.get? key) :=
  rel_find? h fun f g hfg => by rw [hfg.key]

/-- A field that fits joins both tables, or its key is taken in both. -/
theorem insert_alike (h : SameTable R t u table table') {f g : RecordField} (hfg : SameRecordField R t u f g) :
    EndTogether (SameTable R t u) (SameTableError R) (table.insert f) (table'.insert g) := by
  have hget := get?_alike h f.key
  unfold insert
  rw [← hfg.key]
  revert hget
  generalize table.get? f.key = x, table'.get? f.key = y
  rintro (hfirst | _)
  · exact .error (.duplicateKey f.key hfirst.pos hfg.pos)
  · exact .ok (rel_append h (.cons hfg .nil))

variable (htu : t.Alike R u) (tag : TagConfig)

include htu

theorem recordField_alike {f g : Field} (h : TypeTable.SameField R t u f g) :
    SameRecordField R t u (recordField t tag f) (recordField u tag g) := by
  have hkey : keyOf tag f = keyOf tag g := by
    unfold keyOf
    rw [h.tag, h.name]
  exact ⟨h.name, hkey, h.type, htu.recordType? h.type.sameType, h.pos⟩

/-- Two ways to add promoted fields that lead to the same tables do so on the fields of a struct. -/
theorem addFieldsWith_alike {promote promote' : List Field → FieldTable → Except FieldTableError FieldTable}
    (hpromote : ∀ {fs gs table table'}, List.Forall₂ (TypeTable.SameField R t u) fs gs → SameTable R t u table table' →
      EndTogether (SameTable R t u) (SameTableError R) (promote fs table) (promote' gs table'))
    {fs gs : List Field} (h : List.Forall₂ (TypeTable.SameField R t u) fs gs) (htable : SameTable R t u table table') :
    EndTogether (SameTable R t u) (SameTableError R) (addFieldsWith promote t tag fs table)
      (addFieldsWith promote' u tag gs table') := by
  refine EndTogether.foldlM h (fun table table' f g htable hfg => ?_) htable
  rw [hfg.embedded]
  split
  · have hinner := htu.structFields? hfg.type.sameType
    revert hinner
    generalize t.structFields? f.type = x, u.structFields? g.type = y
    rintro (hinner | _)
    · exact hpromote hinner htable
    · exact .ok htable
  · exact insert_alike htable (recordField_alike htu tag hfg)

theorem addFields_alike (depth : Nat) {fs gs : List Field} (h : List.Forall₂ (TypeTable.SameField R t u) fs gs)
    (htable : SameTable R t u table table') :
    EndTogether (SameTable R t u) (SameTableError R) (addFields t tag depth fs table)
      (addFields u tag depth gs table') := by
  induction depth generalizing fs gs table table' with
  | zero => exact addFieldsWith_alike htu tag (fun _ htable => .ok htable) h htable
  | succ depth ih => exact addFieldsWith_alike htu tag ih h htable

/-- Types of one shape have the same field table, or none for the same reason. -/
theorem ofType_alike (h : TypeTable.SameType R t u a b) :
    EndTogether (SameTable R t u) (SameTableError R) (ofType t tag a) (ofType u tag b) := by
  have hfields := htu.structFields? h
  unfold ofType
  revert hfields
  generalize t.structFields? a = x, u.structFields? b = y
  rintro (hfields | _)
  · exact addFields_alike htu tag maxEmbedDepth hfields .nil
  · rw [htu.display h]
    exact .error (.notAStruct _)

end FieldTable

/-! ### Diagnostics -/

inductive SameKind (R : Pos → Pos → Prop) : DiagnosticKind → DiagnosticKind → Prop
  | typeMismatch : SameKind R .typeMismatch .typeMismatch
  | fieldNotFound : SameKind R .fieldNotFound .fieldNotFound
  | notAStructField : SameKind R .notAStructField .notAStructField
  | noTable {e e' : FieldTableError} (h : SameTableError R e e') : SameKind R (.noTable e) (.noTable e')

structure SameDiagnostic (R : Pos → Pos → Prop) (d d' : Diagnostic) : Prop where
  kind : SameKind R d.kind d'.kind
  pos : R d.pos d'.pos
  reference : Option.Rel R d.reference d'.reference

theorem rel_unique {α β : Type} {R : α → β → Prop} (hR : Relator.BiUnique R) : Relator.BiUnique (Option.Rel R) := by
  constructor
  · rintro _ _ _ (h | _) (h' | _)
    · rw [hR.1 h h']
    · rfl
  · rintro _ _ _ (h | _) (h' | _)
    · rw [hR.2 h h']
    · rfl

section

variable (hR : Relator.BiUnique R)

include hR

/-- Where each place is the same as one other at most, so is each error. -/
theorem sameTableError_unique : Relator.BiUnique (SameTableError R) := by
  constructor
  · rintro _ _ _ (⟨key, h, h'⟩ | _) (⟨_, i, i'⟩ | _)
    · rw [(rel_unique hR).1 h i, (rel_unique hR).1 h' i']
    · rfl
  · rintro _ _ _ (⟨key, h, h'⟩ | _) (⟨_, i, i'⟩ | _)
    · rw [(rel_unique hR).2 h i, (rel_unique hR).2 h' i']
    · rfl

theorem sameKind_unique : Relator.BiUnique (SameKind R) := by
  constructor
  · rintro _ _ _ (_ | _ | _ | h) (_ | _ | _ | h')
    · rfl
    · rfl
    · rfl
    · rw [(sameTableError_unique hR).1 h h']
  · rintro _ _ _ (_ | _ | _ | h) (_ | _ | _ | h')
    · rfl
    · rfl
    · rfl
    · rw [(sameTableError_unique hR).2 h h']

/-- A diagnostic is the same as one diagnostic only. -/
theorem sameDiagnostic_unique : Relator.BiUnique (SameDiagnostic R) := by
  constructor
  · rintro ⟨kind, pos, reference⟩ ⟨kind', pos', reference'⟩ _ h h'
    rw [Diagnostic.mk.injEq]
    exact ⟨(sameKind_unique hR).1 h.kind h'.kind, hR.1 h.pos h'.pos, (rel_unique hR).1 h.reference h'.reference⟩
  · rintro _ ⟨kind, pos, reference⟩ ⟨kind', pos', reference'⟩ h h'
    rw [Diagnostic.mk.injEq]
    exact ⟨(sameKind_unique hR).2 h.kind h'.kind, hR.2 h.pos h'.pos, (rel_unique hR).2 h.reference h'.reference⟩

end

/-- The same expressions have been examined, with the same diagnostics. -/
structure SameDiagnostics (R : Pos → Pos → Prop) (ds ds' : Diagnostics) : Prop where
  checked : ds.checked = ds'.checked
  found : List.Forall₂ (fun x y => x.1 = y.1 ∧ SameDiagnostic R x.2 y.2) ds.found ds'.found

namespace SameDiagnostics

variable {ds ds' : Diagnostics} (h : SameDiagnostics R ds ds')

include h

theorem mark (n : NodeId) : SameDiagnostics R (ds.mark n) (ds'.mark n) := by
  unfold Diagnostics.mark
  rw [h.checked]
  split
  · exact h
  · exact ⟨rfl, h.found⟩

theorem push (n : NodeId) {d d' : Diagnostic} (hd : SameDiagnostic R d d') :
    SameDiagnostics R (ds.push n d) (ds'.push n d') :=
  ⟨(h.mark n).checked, rel_append (h.mark n).found (.cons ⟨rfl, hd⟩ .nil)⟩

theorem foundAt (n : NodeId) : List.Forall₂ (SameDiagnostic R) (ds.foundAt n) (ds'.foundAt n) := by
  refine rel_map_list (rel_filter_list h.found ?_) fun _ _ hd => hd.2
  rintro x y ⟨hxy, -⟩
  rw [hxy]

end SameDiagnostics

/-! ### Messages -/

variable {N : FileNames} {p q : Program}

namespace Program.Alike

variable (h : Alike N p q)

include h

theorem fileNames_left : p.fileNames = N.shared ++ N.left := by
  obtain ⟨fs, hfs, hp, -⟩ := h.files
  rw [fileNames, hp, List.map_append, hfs, List.map_map]
  congr 1
  exact List.map_id N.left

theorem fileNames_right : q.fileNames = N.shared ++ N.right := by
  obtain ⟨fs, hfs, -, hq⟩ := h.files
  rw [fileNames, hq, List.map_append, hfs, List.map_map]
  congr 1
  exact List.map_id N.right

/-- Nodes stand at the same place. -/
theorem samePlace (hN : 0 < N.shared.length) (n : NodeId) : N.SamePlace (p.pos n) (q.pos n) := by
  have hlt := h.file_lt hN n
  rw [← h.pos n]
  refine ⟨rfl, rfl, N.shared[(p.pos n).file], ?_, ?_⟩
  · rw [List.getElem?_append_left hlt, List.getElem?_eq_getElem hlt]
  · rw [List.getElem?_append_left hlt, List.getElem?_eq_getElem hlt]

end Program.Alike

theorem Program.fileName_eq {file : FileId} {name : String} (h : p.fileNames[file]? = some name) :
    p.fileName file = name := by
  rw [fileNames, List.getElem?_map, Array.getElem?_toList] at h
  obtain ⟨f, hf, hname⟩ := Option.map_eq_some_iff.1 h
  simp only [fileName, hf, hname]

/-- The same place is written in the same way. -/
theorem FileNames.SamePlace.display {pos pos' : Pos} (hpos : N.SamePlace pos pos') (h : Program.Alike N p q) :
    p.displayPos pos = q.displayPos pos' := by
  obtain ⟨hline, hcol, name, hleft, hright⟩ := hpos
  rw [← h.fileNames_left] at hleft
  rw [← h.fileNames_right] at hright
  unfold Program.displayPos
  rw [Program.fileName_eq hleft, Program.fileName_eq hright, hline, hcol]

/-- Diagnostics that are the same have one message, as files and types are shown alike. -/
theorem SameDiagnostic.message {d d' : Diagnostic} (hd : SameDiagnostic N.SamePlace d d') (h : Program.Alike N p q) :
    d.message p = d'.message q := by
  have hreference : d.reference.map p.displayPos = d'.reference.map q.displayPos :=
    (map_eq_of_rel hd.reference fun _ _ hpos => (hpos.display h).symm).symm
  obtain ⟨kind, pos, reference⟩ := d
  obtain ⟨kind', pos', reference'⟩ := d'
  simp only [Diagnostic.message, hd.pos.display h, hreference]
  cases hd.kind with
  | noTable he =>
    cases he <;> rfl
  | _ => rfl

end FluentChain
