import FluentChain.Proofs.Merge.Mention

/-!
# The order of dumps

Dumps can be merged in any order (`ofDumps_perm`).  Whether they make a program depends on what they say together
(`Mergeable`), and so do the readings of that program, in which types are known by their text and symbols by
their key.
-/

namespace FluentChain

/-! ### Readings -/

structure FieldOutline where
  name : String
  type : String
  embedded : Bool
  tag : Option String
deriving DecidableEq, Repr

/-- What a named type is, with the types it is made of as text. -/
inductive DefinitionOutline
  | struct (fields : List FieldOutline)
  | other (type : String)
deriving DecidableEq, Repr

structure ObjectOutline where
  key : String
  name : String
  kind : ObjectKind
  type : Option String
  recv : Option String
deriving DecidableEq, Repr

namespace TypeTable

def fieldOutline (t : TypeTable) (f : Field) : FieldOutline := ⟨f.name, t.display f.type, f.embedded, f.tag⟩

def outline (t : TypeTable) (underlying : TypeId) : DefinitionOutline :=
  match t.get? underlying with
  | some (.struct fields) => .struct (fields.map t.fieldOutline)
  | _ => .other (t.display underlying)

/-- The declaration of a name, which is blank where the name is not declared. -/
def declOf (t : TypeTable) (name : String) : NamedType := ((t.named? name).bind t.decl?).getD (.blank name)

end TypeTable

namespace Program

/-- How a name is defined, if it is. -/
def definition? (p : Program) (name : String) : Option DefinitionOutline :=
  (p.types.declOf name).underlying.map p.types.outline

/-- The keys of the methods of a name. -/
def methodKeys (p : Program) (name : String) : List (Option String) := (p.types.declOf name).methods.map p.key?

def objectOutline (p : Program) (obj : Object) : ObjectOutline :=
  ⟨obj.key, obj.name, obj.kind, obj.type.map p.types.display, obj.recv.map p.types.display⟩

end Program

/-- Two programs in which the same types and symbols are declared, in whatever order. -/
structure SameDeclarations (p q : Program) : Prop where
  names : ∀ name, (p.types.named? name).isSome = (q.types.named? name).isSome
  definitions : ∀ name, p.definition? name = q.definition? name
  methods : ∀ name, (p.methodKeys name).Perm (q.methodKeys name)
  objects : (p.objects.toList.map p.objectOutline).Perm (q.objects.toList.map q.objectOutline)

/-! ### What dumps say -/

namespace FieldDump

def outline (f : FieldDump) : FieldOutline := ⟨f.name, (TypeExpr.read f.type).text, f.embedded, f.tag⟩

end FieldDump

def TypeDump.outline (type : TypeDump) : DefinitionOutline :=
  match type.fields with
  | some fields => .struct (fields.map FieldDump.outline)
  | none => .other ((type.underlying.map fun text => (TypeExpr.read text).text).getD "")

def ObjectShape.outline (shape : ObjectShape) : ObjectOutline :=
  ⟨shape.key, shape.name, shape.kind, shape.type.map TypeShape.text, shape.recv.map TypeExpr.text⟩

def mentionsOf (ds : List PackageDump) : List Mention := (filesOf ds).flatMap FileDump.mentions

/-- Whether a mention makes sense together with some dumps. -/
def Mention.Fits (ds : List PackageDump) : Mention → Prop
  | .place text => (WrittenPos.parse? text).isSome
  | .type text => (TypeExpr.read text).Known (declaredNames (typesOf ds))
  | .symbol key => key ∈ (itemsOf ds).filterMap Item.key?

/-- Dumps that make a program together. -/
structure Mergeable (ds : List PackageDump) : Prop where
  declarable : Declarable ds
  mentions : ∀ x ∈ mentionsOf ds, x.Fits ds

/-- The program `q` is what dumps describe, their syntax included: without it, it was `p`. -/
structure Merges (ds : List PackageDump) (files : List String) (p q : Program) : Prop where
  describes : Describes files (typesOf ds) (itemsOf ds) [] p
  carries : Carries (declaredNames (typesOf ds)) p (mentionsOf ds) q

/-! ### The readings of a merge -/

namespace Merges

variable {ds : List PackageDump} {files : List String} {p q : Program} {name : String}

/-- After the syntax is added, a type is shown as what it was declared as. -/
theorem display_eq (h : Merges ds files p q) {id : TypeId} {shape : TypeShape} (hid : p.types.HasShape shape id) :
    q.types.display id = shape.text := by
  have hwf := h.describes.ready.wellFormed
  rw [TypeTable.display_of_growsTo hwf h.carries.types.old.growsTo hid.lt_size, hid.display_eq hwf]

/-- The declaration of any name is what the items say of it. -/
theorem declOf (h : Merges ds files p q) (name : String) :
    DeclOf p (typesOf ds) (itemsOf ds) (q.types.declOf name) ∧ (q.types.declOf name).name = name := by
  have hblank : ¬ p.types.Has (.declared name) → DeclOf p (typesOf ds) (itemsOf ds) (.blank name) :=
    h.describes.declOf_blank
  unfold TypeTable.declOf
  cases hn : q.types.named? name with
  | none =>
    refine ⟨hblank fun hhas => TypeTable.named?_eq_none_iff.1 hn ?_, rfl⟩
    exact hhas.mono h.carries.types.old.growsTo
  | some id =>
    obtain ⟨decl, hid, rfl⟩ := TypeTable.get?_of_named? hn
    simp only [TypeTable.decl?, hid, Option.bind_some, Option.getD_some, and_true]
    rcases h.carries.types.old.blank hid with hold | ⟨hnew, heq⟩
    · exact h.describes.decls hold
    · rw [heq]
      exact hblank hnew

/-- A name is found if it is declared, or if a declaration or a piece of syntax refers to it. -/
theorem named?_isSome_iff (h : Merges ds files p q) : (q.types.named? name).isSome ↔
    name ∈ declaredNames (typesOf ds) ∨ .declared name ∈ (itemsOf ds).flatMap Item.parts ∨
      .declared name ∈ (mentionsOf ds).flatMap Mention.shapes := by
  have hsome : (q.types.named? name).isSome ↔ q.types.Has (.declared name) := by
    rw [← not_iff_not, Option.not_isSome_iff_eq_none, TypeTable.named?_eq_none_iff]
  rw [hsome, h.carries.types.has, h.describes.has]
  simp [or_assoc]

/-- The outline of a definition is read off its dump. -/
theorem outline_eq (h : Merges ds files p q) {type : TypeDump} {u : TypeId} (hu : DefinitionOf p type u) :
    q.types.outline u = type.outline := by
  have hold := h.carries.types.old
  cases hu with
  | @struct fields gs hfields hid hgs =>
    have hmap : gs.map q.types.fieldOutline = fields.map FieldDump.outline := by
      refine map_eq_of_forall₂ hgs fun f g hf => ?_
      simp only [TypeTable.fieldOutline, FieldDump.outline, hf.name, hf.embedded, hf.tag,
        h.display_eq (.plain hf.type), TypeShape.text]
    simp only [TypeTable.outline, hold.get? hid, TypeDump.outline, hfields, hmap]
  | @plain text hfields hunderlying hu =>
    unfold TypeTable.outline
    split
    · rename_i fields hstruct
      exact absurd hstruct ((hu.mono hold.growsTo).get?_ne_struct fields)
    · simp only [h.display_eq (.plain hu), TypeDump.outline, hfields, hunderlying, Option.map_some, Option.getD_some,
        TypeShape.text]

/-- The definition of a name is that of the item that defines it, and there is at most one. -/
theorem definition?_eq (h : Merges ds files p q) (name : String) :
    q.definition? name = (definitionIn (itemsOf ds) name).map TypeDump.outline := by
  obtain ⟨hof, hname⟩ := h.declOf name
  have hdefinition := hof.definition
  rw [hname] at hdefinition
  exact map_eq_of_rel hdefinition fun _ _ hu => h.outline_eq hu

/-- The methods of a name are those that items declare on it, in their order. -/
theorem methodKeys_eq (h : Merges ds files p q) (name : String) :
    q.methodKeys name = ((itemsOf ds).filterMap (Item.methodKey? name)).map some := by
  obtain ⟨hof, hname⟩ := h.declOf name
  have hmethods := hof.methods
  rw [hname] at hmethods
  rw [← hmethods]
  refine List.map_congr_left fun o _ => ?_
  simp only [Program.key?, Program.object?, h.carries.objects]

/-- The symbols are those that items declare, in their order. -/
theorem objectOutlines_eq (h : Merges ds files p q) :
    q.objects.toList.map q.objectOutline = ((itemsOf ds).filterMap Item.object?).map ObjectShape.outline := by
  rw [h.carries.objects]
  refine map_eq_of_forall₂ h.describes.objects fun shape obj hobj => ?_
  have htype := map_eq_of_rel hobj.type fun _ _ hid => h.display_eq hid
  have hrecv := map_eq_of_rel (f := TypeExpr.text) hobj.recv fun _ _ hid => h.display_eq (.plain hid)
  simp only [Program.objectOutline, ObjectShape.outline, hobj.key, hobj.name, hobj.kind, htype, hrecv]

end Merges

/-! ### Merging in any order -/

namespace Build

/-- From a program of declarations the syntax is added exactly if all that it mentions is there. -/
theorem decides_declarationsOf {ds : List PackageDump} {files : List String} {p : Program}
    (hp : Describes files (typesOf ds) (itemsOf ds) [] p) :
    Decides (fun q => q = p) ((filesOf ds).forM declsOf) (∀ x ∈ mentionsOf ds, x.Fits ds)
      fun _ q => Merges ds files p q := by
  have hnone : Carries (declaredNames (typesOf ds)) p [] p :=
    ⟨⟨hp.ready.declares, .refl _, fun _ => by simp⟩, rfl⟩
  have hloop := Mentions.forM (filesOf ds) mentions_declsOf (declaredNames (typesOf ds)) p []
  refine (hloop.weaken (by rintro q rfl; exact hnone) fun _ q hq => ⟨hp, hq⟩).congr ?_
  refine forall₂_congr fun x _ => ?_
  cases x with
  | place | type => exact Iff.rfl
  | symbol key =>
    rw [Mention.Sound, Mention.Fits, ← not_iff_not, Option.not_isSome_iff_eq_none, hp.lookupObject?_eq_none_iff]

/-- Dumps make a program exactly if they fit together, and then it says what they say. -/
theorem decides_dumps (ds : List PackageDump) :
    Decides (fun p => p = {}) (dumps ds) (Mergeable ds) fun _ q => ∃ files p, Merges ds files p q := by
  rw [dumps_eq]
  refine (Decides.total_bind (decides_files (filesOf ds)) fun _ => Decides.of_forall fun s hs =>
    Decides.bind ((decides_declarations ds).weaken (by rintro t rfl; exact hs.1) fun _ _ h => h) fun _ _ =>
      Decides.of_forall fun p hp => (decides_declarationsOf hp).weaken (fun _ h => h) fun _ q hq => ⟨_, p, hq⟩).congr ?_
  exact ⟨fun h => ⟨h.1, h.2⟩, fun h => ⟨h.declarable, h.mentions⟩⟩

end Build

/-- Dumps make a program exactly if their declarations fit together and their syntax mentions nothing else. -/
theorem exists_ofDumps_iff (ds : List PackageDump) : (∃ q, Program.ofDumps ds = .ok q) ↔ Mergeable ds := by
  simp only [Program.ofDumps_eq_ok_iff]
  constructor
  · rintro ⟨q, hq⟩
    exact ((Build.decides_dumps ds).of_ok rfl hq).1
  · intro h
    obtain ⟨_, q, hq, -⟩ := (Build.decides_dumps ds).exists_ok rfl h
    exact ⟨q, hq⟩

/-- A program that dumps make is what they describe, with its syntax behind it. -/
theorem merges_of_ofDumps {ds : List PackageDump} {q : Program} (h : Program.ofDumps ds = .ok q) :
    Mergeable ds ∧ ∃ files p, Merges ds files p q :=
  (Build.decides_dumps ds).of_ok rfl (Program.ofDumps_eq_ok_iff.1 h)

section

variable {ds ds' : List PackageDump} (hperm : ds.Perm ds')

include hperm

theorem mentionsOf_perm : (mentionsOf ds).Perm (mentionsOf ds') := (filesOf_perm hperm).flatMap_right _

theorem Mention.Fits.perm {x : Mention} (h : x.Fits ds) : x.Fits ds' := by
  cases x with
  | place => exact h
  | type text => exact TypeExpr.Known.mono h fun name => (mem_declaredNames_perm hperm name).1
  | symbol key => exact ((itemsOf_perm hperm).filterMap _).mem_iff.1 h

/-- Whether dumps make a program does not depend on their order. -/
theorem Mergeable.perm (h : Mergeable ds) : Mergeable ds' where
  declarable := h.declarable.perm hperm
  mentions x hx := (h.mentions x ((mentionsOf_perm hperm).mem_iff.2 hx)).perm hperm

end

/-- Dumps can be merged in any order. -/
theorem ofDumps_perm {ds ds' : List PackageDump} (hperm : ds.Perm ds') :
    ((∃ p, Program.ofDumps ds = .ok p) ↔ ∃ q, Program.ofDumps ds' = .ok q) ∧
      ∀ p q, Program.ofDumps ds = .ok p → Program.ofDumps ds' = .ok q → SameDeclarations p q := by
  refine ⟨?_, fun p q hp hq => ?_⟩
  · rw [exists_ofDumps_iff, exists_ofDumps_iff]
    exact ⟨Mergeable.perm hperm, Mergeable.perm hperm.symm⟩
  · obtain ⟨hmergeable, _, _, hp⟩ := merges_of_ofDumps hp
    obtain ⟨-, _, _, hq⟩ := merges_of_ofDumps hq
    have hitems := itemsOf_perm hperm
    refine ⟨fun name => ?_, fun name => ?_, fun name => ?_, ?_⟩
    · rw [Bool.eq_iff_iff, hp.named?_isSome_iff, hq.named?_isSome_iff, mem_declaredNames_perm hperm,
        (hitems.flatMap_right _).mem_iff, ((mentionsOf_perm hperm).flatMap_right _).mem_iff]
    · rw [hp.definition?_eq, hq.definition?_eq,
        hmergeable.declarable.items.definitionIn_perm hitems (hmergeable.perm hperm).declarable.items]
    · rw [hp.methodKeys_eq, hq.methodKeys_eq]
      exact (hitems.filterMap _).map _
    · rw [hp.objectOutlines_eq, hq.objectOutlines_eq]
      exact (hitems.filterMap _).map _

/-- Two dumps that refer to each other. -/
def PackageDump.authors : PackageDump where
  types := [{
    name := "Author"
    fields := some [{ name := "Books", type := "[]Book" }]
    methods := [{ name := "Add", pointer := true, params := ["...Book"] }] }]

def PackageDump.books : PackageDump where
  types := [{
    name := "Book"
    fields := some [{ name := "By", type := "*Author" }, { name := "Seller", type := "trade.Shop" }] }]
  objects := [{ key := "shelf", kind := .var, type := "map[string]Book" }]

theorem ofDumps_perm_authors :
    [PackageDump.authors, .books].Perm [.books, .authors] ∧
      ∃ p q, Program.ofDumps [.authors, .books] = .ok p ∧ Program.ofDumps [.books, .authors] = .ok q ∧
        SameDeclarations p q := by
  have hperm : [PackageDump.authors, .books].Perm [.books, .authors] := .swap _ _ _
  have hok : (Program.ofDumps [.authors, .books]).toOption.isSome = true := by decide +kernel
  obtain ⟨hiff, hsame⟩ := ofDumps_perm hperm
  obtain ⟨p, hp⟩ : ∃ p, Program.ofDumps [.authors, .books] = .ok p := by
    revert hok
    cases Program.ofDumps [.authors, .books] with
    | ok p => exact fun _ => ⟨p, rfl⟩
    | error e => exact nofun
  obtain ⟨q, hq⟩ := hiff.1 ⟨p, hp⟩
  exact ⟨hperm, p, q, hp, hq, hsame p q hp hq⟩

end FluentChain
