import FluentChain.Proofs.Merge.Declarations

/-!
# Numbers in range

Files, types, symbols and nodes are named by number, and the parts of a program refer to each other by such
numbers.  In a well-formed program all of them are in range (`Program.WellFormed`).  Every step of building keeps
a program well-formed and moves nothing in it (`Build.Safe`): a step that is given numbers of the program gives
numbers of the program, and where it fails it leaves no others either.

Positions may be given with any file number.  Whether they are to be in range too is left open (`placed`), so that
the steps can also be done with positions of which nothing is known.
-/

namespace FluentChain

/-- How many files, types, symbols and nodes there are; the files are not counted where any number will do. -/
structure Bounds where
  files : Option Nat
  types : Nat
  objects : Nat
  nodes : Nat

namespace Ty

/-- The types that a type refers to: its components, or what its name stands for. -/
def typeRefs : Ty → List TypeId
  | .named decl => decl.underlying.toList
  | ty => ty.components

def methodRefs : Ty → List ObjId
  | .named decl => decl.methods
  | _ => []

/-- The positions in a type. -/
def places : Ty → List Pos
  | .named decl => decl.pos.toList
  | .struct fields => fields.filterMap (·.pos)
  | _ => []

/-- The types that a type is made of are among those that it refers to. -/
theorem mem_typeRefs_of_mem_components {ty : Ty} {c : TypeId} (h : c ∈ ty.components) : c ∈ ty.typeRefs := by
  cases ty with
  | named decl => exact absurd h List.not_mem_nil
  | _ => exact h

end Ty

/-- The symbol that a node names. -/
def Node.symbol? : Node → Option ObjId
  | .ident _ obj _ => obj
  | _ => none

/-! ### In range -/

def Pos.InRange (b : Bounds) (pos : Pos) : Prop := ∀ n ∈ b.files, pos.file < n

structure Ty.InRange (b : Bounds) (ty : Ty) : Prop where
  types : ∀ c ∈ ty.typeRefs, c < b.types
  methods : ∀ m ∈ ty.methodRefs, m < b.objects
  places : ∀ pos ∈ ty.places, pos.InRange b

structure Object.InRange (b : Bounds) (obj : Object) : Prop where
  type : ∀ id ∈ obj.type, id < b.types
  recv : ∀ id ∈ obj.recv, id < b.types
  pos : ∀ pos ∈ obj.pos, pos.InRange b

structure NodeData.InRange (b : Bounds) (d : NodeData) : Prop where
  children : ∀ c ∈ d.node.children, c < b.nodes
  symbol : ∀ o ∈ d.node.symbol?, o < b.objects
  type : ∀ id ∈ d.type, id < b.types
  pos : d.pos.InRange b

/-- There is at least as much of everything. -/
structure Bounds.Le (a b : Bounds) : Prop where
  files : ∀ m ∈ b.files, ∃ n ∈ a.files, n ≤ m
  types : a.types ≤ b.types
  objects : a.objects ≤ b.objects
  nodes : a.nodes ≤ b.nodes

section

variable {a b : Bounds}

/-- What is in range stays in range when there is more. -/
theorem Pos.InRange.mono {pos : Pos} (h : pos.InRange a) (hle : a.Le b) : pos.InRange b := by
  intro m hm
  obtain ⟨n, hn, hnm⟩ := hle.files m hm
  exact Nat.lt_of_lt_of_le (h n hn) hnm

theorem Ty.InRange.mono {ty : Ty} (h : ty.InRange a) (hle : a.Le b) : ty.InRange b where
  types c hc := Nat.lt_of_lt_of_le (h.types c hc) hle.types
  methods m hm := Nat.lt_of_lt_of_le (h.methods m hm) hle.objects
  places pos hpos := (h.places pos hpos).mono hle

theorem Object.InRange.mono {obj : Object} (h : obj.InRange a) (hle : a.Le b) : obj.InRange b where
  type id hid := Nat.lt_of_lt_of_le (h.type id hid) hle.types
  recv id hid := Nat.lt_of_lt_of_le (h.recv id hid) hle.types
  pos pos hpos := (h.pos pos hpos).mono hle

theorem NodeData.InRange.mono {d : NodeData} (h : d.InRange a) (hle : a.Le b) : d.InRange b where
  children c hc := Nat.lt_of_lt_of_le (h.children c hc) hle.nodes
  symbol o ho := Nat.lt_of_lt_of_le (h.symbol o ho) hle.objects
  type id hid := Nat.lt_of_lt_of_le (h.type id hid) hle.types
  pos := h.pos.mono hle

end

namespace TypeTable

variable {t u : TypeTable} {ty : Ty} {id : TypeId}

theorem get?_of_decl? {decl : NamedType} (h : t.decl? id = some decl) : t.get? id = some (.named decl) := by
  unfold decl? at h
  split at h
  · cases h
    assumption
  · cases h

/-- A type stays in range when the table grows. -/
theorem GrowsTo.lt_size (h : t.GrowsTo u) (hid : id < t.size) : id < u.size := by
  obtain ⟨ty, hty⟩ := exists_get?_of_lt hid
  by_cases hnamed : ∃ decl, ty = .named decl
  · obtain ⟨decl, rfl⟩ := hnamed
    obtain ⟨decl', hdecl', -⟩ := h.named hty
    exact lt_size_of_get? hdecl'
  · exact lt_size_of_get? (h.unnamed hty fun decl hd => hnamed ⟨decl, hd⟩)

theorem GrowsTo.size_le (h : t.GrowsTo u) : t.size ≤ u.size := by
  by_contra hlt
  exact Nat.lt_irrefl _ (h.lt_size (Nat.lt_of_not_le hlt))

end TypeTable

namespace Program

def bounds (placed : Bool) (p : Program) : Bounds where
  files := if placed then some p.files.size else none
  types := p.types.size
  objects := p.objects.size
  nodes := p.nodes.size

@[simp] theorem bounds_types (placed : Bool) (p : Program) : (p.bounds placed).types = p.types.size := rfl

@[simp] theorem bounds_objects (placed : Bool) (p : Program) : (p.bounds placed).objects = p.objects.size := rfl

@[simp] theorem bounds_nodes (placed : Bool) (p : Program) : (p.bounds placed).nodes = p.nodes.size := rfl

/-- The type table is well-formed, and every number in the program is in range. -/
structure WellFormed (placed : Bool) (p : Program) : Prop where
  table : p.types.WellFormed
  types : ∀ {id : TypeId} {ty : Ty}, p.types.get? id = some ty → ty.InRange (p.bounds placed)
  objects : ∀ obj ∈ p.objects, obj.InRange (p.bounds placed)
  nodes : ∀ d ∈ p.nodes, d.InRange (p.bounds placed)
  decls : ∀ n ∈ p.decls, n < p.nodes.size

/-- The program `q` has what `p` has under the same numbers, and more behind it. -/
structure LeadsTo (p q : Program) : Prop extends p.GrowsTo q where
  nodes : p.nodes.toList.map (·.node) <+: q.nodes.toList.map (·.node)

variable {placed : Bool} {p q r : Program}

theorem LeadsTo.refl (p : Program) : p.LeadsTo p :=
  ⟨⟨.refl _, List.prefix_refl _, List.prefix_refl _⟩, List.prefix_refl _⟩

/-- What one stretch of building keeps and the next keeps too is kept by both. -/
theorem LeadsTo.trans (h : p.LeadsTo q) (h' : q.LeadsTo r) : p.LeadsTo r :=
  ⟨⟨h.types.trans h'.types, h.files.trans h'.files, h.objects.trans h'.objects⟩, h.nodes.trans h'.nodes⟩

theorem LeadsTo.files_size_le (h : p.LeadsTo q) : p.files.size ≤ q.files.size := by
  simpa [fileNames] using h.files.length_le

theorem LeadsTo.nodes_size_le (h : p.LeadsTo q) : p.nodes.size ≤ q.nodes.size := by
  simpa using h.nodes.length_le

theorem LeadsTo.type_lt (h : p.LeadsTo q) {id : TypeId} (hid : id < p.types.size) : id < q.types.size :=
  h.types.lt_size hid

theorem LeadsTo.object_lt (h : p.LeadsTo q) {o : ObjId} (ho : o < p.objects.size) : o < q.objects.size :=
  Nat.lt_of_lt_of_le ho (by simpa using h.objects.length_le)

theorem LeadsTo.node_lt (h : p.LeadsTo q) {n : NodeId} (hn : n < p.nodes.size) : n < q.nodes.size :=
  Nat.lt_of_lt_of_le hn h.nodes_size_le

/-- The bounds of a program only move up. -/
theorem LeadsTo.le (h : p.LeadsTo q) : (p.bounds placed).Le (q.bounds placed) where
  files := by
    cases placed with
    | false => simp [bounds]
    | true => simpa [bounds] using h.files_size_le
  types := h.types.size_le
  objects := by simpa [bounds] using h.objects.length_le
  nodes := h.nodes_size_le

/-- All positions in the file are in range. -/
def FileInRange (placed : Bool) (p : Program) (file : FileId) : Prop :=
  ∀ line col, (⟨file, line, col⟩ : Pos).InRange (p.bounds placed)

theorem FileInRange.mono {file : FileId} (h : p.FileInRange placed file) (hleads : p.LeadsTo q) :
    q.FileInRange placed file :=
  fun line col => (h line col).mono hleads.le

/-- An empty program is well-formed, as there is nothing in it. -/
theorem WellFormed.empty : WellFormed placed {} where
  table := ⟨by simp [TypeTable.get?], by simp [TypeTable.get?], by simp [TypeTable.get?]⟩
  types := by simp [TypeTable.get?]
  objects := by simp
  nodes := by simp
  decls := by simp [Program.decls]

namespace WellFormed

variable (h : p.WellFormed placed)

include h

/-! ### What is found in a well-formed program -/

/-- The type of a node is in range. -/
theorem type_lt {n : NodeId} {id : TypeId} (hid : p.type? n = some id) : id < p.types.size := by
  obtain ⟨d, hd, hid⟩ := Option.bind_eq_some_iff.1 hid
  exact (h.nodes d (Array.mem_of_getElem? hd)).type id hid

theorem objectType_lt {o : ObjId} {id : TypeId} (hid : p.objectType? o = some id) : id < p.types.size := by
  obtain ⟨obj, hobj, hid⟩ := Option.bind_eq_some_iff.1 hid
  exact (h.objects obj (Array.mem_of_getElem? hobj)).type id hid

theorem pos_inRange {n : NodeId} (hn : n < p.nodes.size) : (p.pos n).InRange (p.bounds placed) := by
  have hd := h.nodes p.nodes[n] (Array.getElem_mem hn)
  simpa [Program.pos, hn] using hd.pos

/-- A definition leads to a type of the program. -/
theorem underlying_lt {id next : TypeId} {decl : NamedType} (hid : p.types.decl? id = some decl)
    (hnext : decl.underlying = some next) : next < p.types.size := by
  refine (h.types (TypeTable.get?_of_decl? hid)).types next ?_
  simp [Ty.typeRefs, hnext]

/-- So does any number of names that are followed. -/
theorem underlyingWithin_lt {id : TypeId} (hid : id < p.types.size) (depth : Nat) :
    p.types.underlyingWithin depth id < p.types.size := by
  fun_induction TypeTable.underlyingWithin p.types depth id with
  | case1 => exact hid
  | case2 id depth name pos next methods hdecl ih => exact ih (h.underlying_lt hdecl rfl)
  | case3 => exact hid

/-- The types of the fields of a struct are in range. -/
theorem field_lt {id : TypeId} {fields : List Field} (hid : p.types.structFields? id = some fields) :
    ∀ f ∈ fields, f.type < p.types.size := by
  unfold TypeTable.structFields? at hid
  split at hid
  · rename_i hget
    cases hid
    exact fun f hf => (h.types hget).types f.type (List.mem_map_of_mem hf)
  · cases hid

/-- The types of a signature are in range. -/
theorem signature_lt {id : TypeId} {sig : Signature} (hid : p.types.signature? id = some sig) :
    ∀ c ∈ sig.params ++ sig.results, c < p.types.size := by
  unfold TypeTable.signature? at hid
  split at hid
  · rename_i hget
    cases hid
    exact (h.types hget).types
  · cases hid

theorem singleResult_lt {id result : TypeId} {sig : Signature} (hid : p.types.signature? id = some sig)
    (hresult : sig.singleResult? = some result) : result < p.types.size := by
  refine h.signature_lt hid result (List.mem_append_right _ ?_)
  unfold Signature.singleResult? at hresult
  split at hresult
  · rename_i hresults
    cases hresult
    rw [hresults]
    exact List.mem_singleton_self _
  · cases hresult

/-- A field that is selected has a type of the program, at whatever depth it is found. -/
theorem selectWithin_lt {name : String} {depth : Nat} {id found : TypeId}
    (hfound : p.types.selectWithin name depth id = some found) : found < p.types.size := by
  induction depth generalizing id with
  | zero => cases hfound
  | succ depth ih =>
    rw [TypeTable.selectWithin] at hfound
    obtain ⟨fields, hfields, hfound⟩ := Option.bind_eq_some_iff.1 hfound
    split at hfound
    · rename_i field hfield
      cases hfound
      exact h.field_lt hfields field (List.mem_of_find?_eq_some hfield)
    · obtain ⟨f, -, hf⟩ := List.exists_of_findSome?_eq_some hfound
      exact ih hf

/-! ### One thing more -/

/-- A step on the type table alone. -/
theorem withTypes {u : TypeTable} (hu : u.WellFormed) (hgrow : p.types.GrowsTo u)
    (htypes : ∀ {id : TypeId} {ty : Ty}, u.get? id = some ty →
      ty.InRange (({ p with types := u } : Program).bounds placed)) :
    ({ p with types := u } : Program).WellFormed placed ∧ p.LeadsTo { p with types := u } := by
  have hleads : p.LeadsTo { p with types := u } :=
    ⟨⟨hgrow, List.prefix_refl _, List.prefix_refl _⟩, List.prefix_refl _⟩
  exact ⟨⟨hu, htypes, fun obj hobj => (h.objects obj hobj).mono hleads.le,
    fun d hd => (h.nodes d hd).mono hleads.le, h.decls⟩, hleads⟩

/-- A type can be added if it is in range and neither its parts nor its name are those of another. -/
theorem pushType {ty : Ty} (hty : ty.InRange (p.bounds placed))
    (hshared : ty.IsShared → ∀ id, p.types.get? id ≠ some ty)
    (hnamed : ∀ decl, ty = .named decl → ¬ p.types.Has (.declared decl.name)) :
    ({ p with types := (p.types.push ty).2 } : Program).WellFormed placed ∧
      p.LeadsTo { p with types := (p.types.push ty).2 } := by
  have hcomponents : ∀ c ∈ ty.components, c < p.types.size :=
    fun c hc => hty.types c (Ty.mem_typeRefs_of_mem_components hc)
  have hle : (p.bounds placed).Le (({ p with types := (p.types.push ty).2 } : Program).bounds placed) :=
    LeadsTo.le ⟨⟨TypeTable.growsTo_push p.types ty, List.prefix_refl _, List.prefix_refl _⟩, List.prefix_refl _⟩
  refine h.withTypes (h.table.push hcomponents hshared hnamed) (TypeTable.growsTo_push _ _) fun {id ty'} hid => ?_
  rw [TypeTable.get?_push] at hid
  split at hid
  · cases hid
    exact hty.mono hle
  · exact (h.types hid).mono hle

/-- A shared type is added only where the table does not have it. -/
theorem internType {ty : Ty} (hshared : ty.IsShared) (hty : ∀ c ∈ ty.components, c < p.types.size) :
    (({ p with types := (p.types.intern ty).2 } : Program).WellFormed placed ∧
      p.LeadsTo { p with types := (p.types.intern ty).2 }) ∧ (p.types.intern ty).1 < (p.types.intern ty).2.size := by
  unfold TypeTable.intern
  split
  · rename_i id hid
    exact ⟨⟨h, .refl p⟩, TypeTable.lt_size_of_get? (TypeTable.get?_of_find? hid)⟩
  · rename_i hnew
    refine ⟨h.pushType ?_ (fun _ => TypeTable.get?_ne_of_find? hnew) ?_,
      TypeTable.lt_size_of_get? (TypeTable.get?_push_size _ _)⟩
    · cases ty with
      | named | struct | signature => exact hshared.elim
      | _ => exact ⟨hty, by simp [Ty.methodRefs], by simp [Ty.places]⟩
    · rintro decl rfl
      exact hshared.elim

/-- A declaration can be changed if it keeps its name and leads to what is in range. -/
theorem modifyDecl {id : TypeId} {decl : NamedType} {f : NamedType → NamedType}
    (hid : p.types.get? id = some (.named decl)) (hname : (f decl).name = decl.name)
    (hf : (Ty.named (f decl)).InRange (p.bounds placed)) :
    ({ p with types := p.types.modifyDecl id f } : Program).WellFormed placed ∧
      p.LeadsTo { p with types := p.types.modifyDecl id f } := by
  have hgrow := TypeTable.growsTo_modifyDecl hid hname
  have hle : (p.bounds placed).Le (({ p with types := p.types.modifyDecl id f } : Program).bounds placed) :=
    LeadsTo.le ⟨⟨hgrow, List.prefix_refl _, List.prefix_refl _⟩, List.prefix_refl _⟩
  refine h.withTypes (h.table.modifyDecl hid hname) hgrow fun {id' ty} hid' => ?_
  rw [TypeTable.get?_modifyDecl hid] at hid'
  split at hid'
  · cases hid'
    exact hf.mono hle
  · exact (h.types hid').mono hle

theorem declareType (name : String) {pos : Option Pos} (hpos : ∀ place ∈ pos, place.InRange (p.bounds placed)) :
    (({ p with types := (p.types.declare name pos).2 } : Program).WellFormed placed ∧
      p.LeadsTo { p with types := (p.types.declare name pos).2 }) ∧
      (p.types.declare name pos).1 < (p.types.declare name pos).2.size := by
  unfold TypeTable.declare
  split
  · rename_i id hn
    obtain ⟨decl, hid, -⟩ := TypeTable.get?_of_named? hn
    have hstep := h.modifyDecl (f := fun decl => { decl with pos := decl.pos <|> pos }) hid rfl ?_
    · exact ⟨hstep, hstep.2.types.lt_size (TypeTable.lt_size_of_get? hid)⟩
    · have hdecl := h.types hid
      refine ⟨hdecl.types, hdecl.methods, fun place hplace => ?_⟩
      cases hold : decl.pos with
      | none => exact hpos place (by simpa [Ty.places, hold] using hplace)
      | some old => exact hdecl.places place (by simpa [Ty.places, hold] using hplace)
  · rename_i hnew
    refine ⟨h.pushType ⟨by simp [Ty.typeRefs], by simp [Ty.methodRefs], by simpa [Ty.places] using hpos⟩
      False.elim ?_, TypeTable.lt_size_of_get? (TypeTable.get?_push_size _ _)⟩
    rintro decl hdecl
    cases hdecl
    exact TypeTable.named?_eq_none_iff.1 hnew

theorem pushObject {obj : Object} (hobj : obj.InRange (p.bounds placed)) :
    ({ p with objects := p.objects.push obj } : Program).WellFormed placed ∧
      p.LeadsTo { p with objects := p.objects.push obj } := by
  have hleads : p.LeadsTo { p with objects := p.objects.push obj } :=
    ⟨Build.growsTo_pushObject p obj, List.prefix_refl _⟩
  refine ⟨⟨h.table, fun hid => (h.types hid).mono hleads.le, ?_, fun d hd => (h.nodes d hd).mono hleads.le, h.decls⟩,
    hleads⟩
  intro obj' hobj'
  rcases Array.mem_push.1 hobj' with hold | rfl
  · exact (h.objects obj' hold).mono hleads.le
  · exact hobj.mono hleads.le

/-- A node can be added if its children, its symbol, its type and its place are in range. -/
theorem pushNode {d : NodeData} (hd : d.InRange (p.bounds placed)) :
    ({ p with nodes := p.nodes.push d } : Program).WellFormed placed ∧
      p.LeadsTo { p with nodes := p.nodes.push d } := by
  have hleads : p.LeadsTo { p with nodes := p.nodes.push d } :=
    ⟨⟨.refl _, List.prefix_refl _, List.prefix_refl _⟩, by simp⟩
  refine ⟨⟨h.table, fun hid => (h.types hid).mono hleads.le, fun obj hobj => (h.objects obj hobj).mono hleads.le, ?_,
    fun n hn => Nat.lt_of_lt_of_le (h.decls n hn) hleads.nodes_size_le⟩, hleads⟩
  intro d' hd'
  rcases Array.mem_push.1 hd' with hold | rfl
  · exact (h.nodes d' hold).mono hleads.le
  · exact hd.mono hleads.le

end WellFormed

end Program

end FluentChain
