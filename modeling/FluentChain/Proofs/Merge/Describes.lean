import FluentChain.Proofs.Merge.Item

/-!
# What items say of a program

A program that is made from dumps says what their items say, no more and no less (`Describes`): it has the types
that are declared or mentioned, each name has its definition and its methods, and its symbols are those that the
items declare.  What is known of a program is kept where others types are added to it (`Describes.grow`).
-/

namespace FluentChain

/-- The program `q` has what `p` has at the same indices, the definitions and methods of names aside. -/
structure Program.GrowsTo (p q : Program) : Prop where
  types : p.types.GrowsTo q.types
  files : p.fileNames <+: q.fileNames
  objects : p.objects.toList <+: q.objects.toList

/-- The key of a symbol. -/
def Program.key? (p : Program) (o : ObjId) : Option String := (p.object? o).map (·.key)

/-- The underlying type `u` is what a dump defines. -/
inductive DefinitionOf (p : Program) (type : TypeDump) (u : TypeId) : Prop
  | struct {fields : List FieldDump} {gs : List Field} (hfields : type.fields = some fields)
    (hid : p.types.get? u = some (.struct gs)) (h : List.Forall₂ (Build.FieldOf p) fields gs) : DefinitionOf p type u
  | plain {text : String} (hfields : type.fields = none) (hunderlying : type.underlying = some text)
    (h : p.types.Denotes (.read text) u) : DefinitionOf p type u

/-- The symbol `obj` is the one that an item declares. -/
structure ObjectOf (p : Program) (shape : ObjectShape) (obj : Object) : Prop where
  key : obj.key = shape.key
  name : obj.name = shape.name
  kind : obj.kind = shape.kind
  type : Option.Rel p.types.HasShape shape.type obj.type
  recv : Option.Rel p.types.Denotes shape.recv obj.recv

/-- The position that dumps give for a name: the first one counts. -/
def placeIn (types : List TypeDump) (name : String) : Option String :=
  types.findSome? fun type => if type.name = name then type.pos else none

/-- The name `decl` has the position that types give it, and the definition and the methods that items give it. -/
structure DeclOf (p : Program) (types : List TypeDump) (items : List Item) (decl : NamedType) : Prop where
  place : Option.Rel p.Places (placeIn types decl.name) decl.pos
  definition : Option.Rel (DefinitionOf p) (definitionIn items decl.name) decl.underlying
  methods : decl.methods.map p.key? = (items.filterMap (Item.methodKey? decl.name)).map some

/-- The program `p` is what items describe together, where types are declared; it has the types `loose` besides.
Its first files are those with the names in `files`. -/
structure Describes (files : List String) (types : List TypeDump) (items : List Item) (loose : List TypeExpr)
    (p : Program) : Prop where
  ready : p.Ready (declaredNames types)
  files : files <+: p.fileNames
  has : ∀ e, p.types.Has e ↔
    (∃ name ∈ declaredNames types, e = .declared name) ∨ e ∈ items.flatMap Item.parts ∨ e ∈ loose
  owners : ∀ i ∈ items, ∀ name ∈ i.owner?, name ∈ declaredNames types
  decls : ∀ {id : TypeId} {decl : NamedType}, p.types.get? id = some (.named decl) → DeclOf p types items decl
  objects : List.Forall₂ (ObjectOf p) (items.filterMap Item.object?) p.objects.toList

variable {declared files : List String} {types : List TypeDump} {items : List Item}
  {loose more : List TypeExpr} {p q r : Program} {name : String}

namespace Program

theorem Grown.growsTo (h : p.Grown declared more q) : p.GrowsTo q :=
  ⟨h.types.old.growsTo, h.files, h.objects ▸ List.prefix_refl _⟩

theorem GrowsTo.object?_eq (h : p.GrowsTo q) {o : ObjId} (ho : o < p.objects.size) : q.object? o = p.object? o := by
  obtain ⟨rest, hrest⟩ := h.objects
  simp only [object?, ← Array.getElem?_toList, ← hrest]
  rw [List.getElem?_append_left (by simpa using ho)]

theorem GrowsTo.key?_eq (h : p.GrowsTo q) {o : ObjId} (ho : o < p.objects.size) : q.key? o = p.key? o := by
  rw [key?, key?, h.object?_eq ho]

theorem lt_size_of_key? {o : ObjId} {key : String} (h : p.key? o = some key) : o < p.objects.size := by
  obtain ⟨obj, hobj, -⟩ := Option.map_eq_some_iff.1 h
  exact (Array.getElem?_eq_some_iff.1 hobj).1

theorem lookupObject?_eq_none_iff {key : String} : p.lookupObject? key = none ↔ key ∉ p.objects.toList.map (·.key) := by
  rw [lookupObject?, Array.findIdx?_eq_none_iff]
  simp

theorem getElem?_map_key (p : Program) (o : ObjId) : (p.objects.toList.map (·.key))[o]? = p.key? o := by
  rw [List.getElem?_map, Array.getElem?_toList]
  rfl

end Program

theorem DefinitionOf.mono {type : TypeDump} {u : TypeId} (h : DefinitionOf p type u) (hgrow : p.GrowsTo q) :
    DefinitionOf q type u := by
  cases h with
  | struct hfields hid h =>
    exact .struct hfields (hgrow.types.unnamed hid nofun) (h.imp fun _ _ hf => hf.mono hgrow.types hgrow.files)
  | plain hfields hunderlying h => exact .plain hfields hunderlying (h.mono hgrow.types)

theorem ObjectOf.mono {shape : ObjectShape} {obj : Object} (h : ObjectOf p shape obj) (hgrow : p.GrowsTo q) :
    ObjectOf q shape obj where
  key := h.key
  name := h.name
  kind := h.kind
  type := rel_imp h.type fun _ _ h => h.mono hgrow.types
  recv := rel_imp h.recv fun _ _ h => h.mono hgrow.types

namespace DeclOf

variable {decl : NamedType}

theorem mono (h : DeclOf p types items decl) (hgrow : p.GrowsTo q) : DeclOf q types items decl where
  place := rel_imp h.place fun _ _ h => h.mono hgrow.files
  definition := rel_imp h.definition fun _ _ h => h.mono hgrow
  methods := by
    rw [← h.methods]
    refine List.map_congr_left fun o ho => hgrow.key?_eq ?_
    have hkey : p.key? o ∈ (items.filterMap (Item.methodKey? decl.name)).map some := by
      rw [← h.methods]
      exact List.mem_map_of_mem ho
    obtain ⟨key, -, hkey⟩ := List.mem_map.1 hkey
    exact Program.lt_size_of_key? hkey.symm

/-- Items that say nothing of a name leave it as it is. -/
theorem of_items {items' : List Item} (h : DeclOf p types items decl)
    (hdefinition : definitionIn items' decl.name = definitionIn items decl.name)
    (hmethods : items'.filterMap (Item.methodKey? decl.name) = items.filterMap (Item.methodKey? decl.name)) :
    DeclOf p types items' decl :=
  ⟨h.place, hdefinition ▸ h.definition, hmethods ▸ h.methods⟩

end DeclOf

theorem definitionIn_concat (items : List Item) (i : Item) (name : String) :
    definitionIn (items ++ [i]) name = (definitionIn items name).or (i.definition? name) := by
  rw [definitionIn, List.findSome?_append, List.findSome?_singleton]
  rfl

theorem isSome_definitionIn_iff {name : String} :
    (definitionIn items name).isSome ↔ name ∈ items.filterMap Item.defined? := by
  rw [definitionIn, List.findSome?_isSome_iff, List.mem_filterMap]
  refine exists_congr fun i => and_congr_right fun _ => ?_
  cases i with
  | definition type => simp [Item.definition?, Item.defined?, and_comm]
  | _ => simp [Item.definition?, Item.defined?]

namespace Describes

theorem map_key (h : Describes files types items loose p) :
    p.objects.toList.map (·.key) = items.filterMap Item.key? := by
  rw [map_eq_of_forall₂ h.objects fun _ _ ho => ho.key, List.map_filterMap]
  rfl

theorem lookupObject?_eq_none_iff (h : Describes files types items loose p) {key : String} :
    p.lookupObject? key = none ↔ key ∉ items.filterMap Item.key? := by
  rw [← h.map_key, Program.lookupObject?_eq_none_iff]

/-- A name of which the items do not speak is no more than declared. -/
theorem declOf_blank (h : Describes files types items loose p) {name : String}
    (hname : ¬ p.types.Has (.declared name)) :
    DeclOf q types items (.blank name) := by
  have hne : ∀ i ∈ items, ∀ owner ∈ i.owner?, owner ≠ name := by
    rintro i hi owner howner rfl
    exact hname (h.ready.declares.has owner (h.owners i hi owner howner))
  have hdefinition : definitionIn items name = none := by
    refine List.findSome?_eq_none_iff.2 fun i hi => ?_
    cases i with
    | definition type => simp [Item.definition?, hne _ hi type.name rfl]
    | _ => rfl
  have hmethods : items.filterMap (Item.methodKey? name) = [] := by
    refine List.filterMap_eq_nil_iff.2 fun i hi => ?_
    cases i with
    | method owner m => simp [Item.methodKey?, hne _ hi owner rfl]
    | _ => rfl
  have hplace : placeIn types name = none := by
    refine List.findSome?_eq_none_iff.2 fun type htype => if_neg ?_
    rintro rfl
    exact hname (h.ready.declares.has type.name (List.mem_map_of_mem htype))
  refine ⟨?_, ?_, ?_⟩
  · rw [NamedType.blank, hplace]
    exact .none
  · rw [NamedType.blank, hdefinition]
    exact .none
  · rw [NamedType.blank, hmethods]
    rfl

/-- Types that are added meanwhile are loose. -/
theorem grow (h : Describes files types items loose p) (hgrow : p.Grown (declaredNames types) more q) :
    Describes files types items (loose ++ more) q where
  ready := hgrow.ready
  files := h.files.trans hgrow.files
  has e := by rw [hgrow.types.has, h.has, List.mem_append, or_assoc, or_assoc]
  owners := h.owners
  decls {id decl} hid := by
    rcases hgrow.types.old.blank hid with hold | ⟨hnew, hblank⟩
    · exact (h.decls hold).mono hgrow.growsTo
    · rw [hblank]
      exact h.declOf_blank hnew
  objects := by
    rw [hgrow.objects]
    exact h.objects.imp fun _ _ ho => ho.mono hgrow.growsTo

/-- One more item, whose types have been added before. -/
theorem add (h : Describes files types items loose p) {i : Item} (hready : q.Ready (declaredNames types))
    (hfiles : p.fileNames <+: q.fileNames)
    (hhas : ∀ e, q.types.Has e ↔ p.types.Has e) (hloose : ∀ e, e ∈ loose ↔ e ∈ i.parts)
    (howner : ∀ name ∈ i.owner?, name ∈ declaredNames types)
    (hdecls : ∀ {id : TypeId} {decl : NamedType}, q.types.get? id = some (.named decl) →
      DeclOf q types (items ++ [i]) decl)
    (hobjects : List.Forall₂ (ObjectOf q) ((items ++ [i]).filterMap Item.object?) q.objects.toList) :
    Describes files types (items ++ [i]) [] q where
  ready := hready
  files := h.files.trans hfiles
  has e := by
    rw [hhas, h.has, hloose, List.flatMap_append, List.flatMap_singleton, List.mem_append]
    simp
  owners j hj := by
    rcases List.mem_append.1 hj with hj | hj
    · exact h.owners j hj
    · rw [List.mem_singleton.1 hj]
      exact howner
  decls := hdecls
  objects := hobjects

end Describes

end FluentChain
