import FluentChain.Proofs.Build.Dumped
import FluentChain.Proofs.Merge.Order
import FluentChain.Proofs.Role.Classification
import FluentChain.Proofs.Type.Grammar
import FluentChain.Proofs.Type.Identity

/-!
# The types that a manifest names

A manifest names a type as a declared name with stars in front of it (`TypeExpr.Starred`).  The search for such a type
in a finished program and the reading of type expressions, which adds what it does not find, are two walks over the same
text.  They agree: what the search finds is what reading the text gives, and what it does not find is not there
(`RoleTable.findType?_agrees`).  So the types of a manifest are those that the program was written with
(`Program.StandsFor`).
-/

namespace FluentChain

namespace TypeExpr

open Text (Padded trim trimEnd)

variable {name cs : List Char} {depth : Nat}

/-- A qualified name that is none of the predeclared ones. -/
structure IsDeclarable (name : List Char) : Prop where
  qualified : IsQualifiedName name
  notAny : String.ofList name ≠ "any"
  notPredeclared : String.ofList name ∉ predeclared

/-- The text writes a name behind some stars, with blanks in any places around them. -/
inductive Starred (name : List Char) : Nat → List Char → Prop
  | name {whole : List Char} (hwhole : Padded name whole) : Starred name 0 whole
  | star {depth : Nat} {rest whole : List Char} (hwhole : Padded ('*' :: rest) whole)
    (hrest : Starred name depth rest) : Starred name (depth + 1) whole

/-- A declared type behind some pointers. -/
def pointers (name : String) : Nat → TypeExpr
  | 0 => .declared name
  | depth + 1 => .pointer (pointers name depth)

theorem trim_star {rest whole : List Char} (hwhole : Padded ('*' :: rest) whole) (htrim : trim cs = trim whole) :
    trim cs = '*' :: trimEnd rest := by
  rw [htrim, hwhole.trim_eq, Text.trim_cons (by decide)]

theorem IsDeclarable.trim_eq (h : IsDeclarable name) {whole : List Char} (hwhole : Padded name whole)
    (htrim : trim cs = trim whole) : trim cs = name := by
  have hqualified := isQualified_iff.2 h.qualified
  rw [htrim, hwhole.trim_eq]
  exact Text.trim_eq_self fun c hc => isBlank_of_isSpecial (isSpecial_of_isQualified hqualified c hc)

/-- The text is read as the pointers that it writes, also where there are more or fewer blanks around it. -/
theorem Starred.parse_eq {text : List Char} (h : Starred name depth text) (hname : IsDeclarable name)
    (htrim : trim cs = trim text) : parse cs = pointers (String.ofList name) depth := by
  induction h generalizing cs with
  | name hwhole =>
    rw [parse_of_padded_qualified htrim hwhole (isQualified_iff.2 hname.qualified),
      nameShape_of_isQualifiedName hname.qualified, ofName, if_neg hname.notAny, if_neg hname.notPredeclared, pointers]
  | @star depth rest whole hwhole _ ih =>
    rw [parse_pointer (trim_star hwhole htrim), ih (Text.trim_trimEnd rest), pointers]

end TypeExpr

open TypeExpr (IsDeclarable Starred pointers)
open Text (trim trimEnd)

/-! ### Searching and reading -/

namespace TypeTable

variable {t u : TypeTable} {name : String} {depth : Nat} {id : TypeId}

/-- The declared type behind some pointers, if the table has all of them. -/
def pointers? (t : TypeTable) (name : String) : Nat → Option TypeId
  | 0 => t.named? name
  | depth + 1 => (t.pointers? name depth).bind t.pointerTo?

/-- Types that are all there are read without adding any. -/
theorem resolve_of_pointers? (h : t.pointers? name depth = some id) :
    (pointers name depth).resolve t = .ok id t := by
  induction depth generalizing id with
  | zero =>
    rw [pointers?] at h
    rw [pointers, TypeExpr.resolve, get_bind]
    simp only [h]
    rfl
  | succ depth ih =>
    obtain ⟨elem, helem, hid⟩ := Option.bind_eq_some_iff.1 h
    rw [pointerTo?] at hid
    rw [pointers, TypeExpr.resolve, bind_of_ok (ih helem)]
    show EStateM.Result.ok _ _ = _
    simp only [hid]

/-- A type that the table does not have yet. -/
def NewIn (t u : TypeTable) (ty : Ty) : Prop := (∃ id, u.get? id = some ty) ∧ ∀ id, t.get? id ≠ some ty

/-- Where one of the types is missing, reading adds a new type or fails. -/
theorem newIn_of_resolve (h : t.pointers? name depth = none) (hrun : (pointers name depth).resolve t = .ok id u) :
    t.Gains u ∧ ∃ ty, NewIn t u ty := by
  induction depth generalizing id u with
  | zero =>
    rw [pointers?] at h
    rw [pointers, TypeExpr.resolve, get_bind] at hrun
    simp only [h] at hrun
    by_cases hdot : '.' ∈ name.toList
    · rw [if_pos hdot] at hrun
      cases hrun
      have hgains := (Gains.declare h hdot).1
      simp only [declare, h] at hgains ⊢
      refine ⟨hgains, _, ⟨_, get?_push_size t _⟩, fun old hold => ?_⟩
      exact name_ne_of_named? h hold rfl
    · rw [if_neg hdot] at hrun
      cases hrun
  | succ depth ih =>
    rw [pointers, TypeExpr.resolve] at hrun
    obtain ⟨elem, v, helem, hintern⟩ := bind_eq_ok.1 hrun
    cases hintern
    have hunnamed : ∀ decl, Ty.pointer elem ≠ .named decl := by
      intro decl h
      cases h
    have hpush := @Gains.intern v (.pointer elem) hunnamed
    cases hpointers : t.pointers? name depth with
    | none =>
      obtain ⟨hgains, ty, ⟨new, hnew⟩, hold⟩ := ih hpointers helem
      exact ⟨hgains.trans hpush.1, ty, ⟨new, hpush.1.get? hnew⟩, hold⟩
    | some found =>
      -- only the outermost pointer is missing, and the table is read as it was up to there
      cases (resolve_of_pointers? hpointers).symm.trans helem
      rw [pointers?, hpointers] at h
      exact ⟨hpush.1, _, ⟨_, hpush.2⟩, get?_ne_of_find? h⟩

end TypeTable

namespace RoleTable

variable {t : TypeTable} {name cs rest : List Char} {depth : Nat}

theorem findType?_star (h : trim cs = '*' :: rest) : findType? t cs = (findType? t rest).bind t.pointerTo? := by
  rw [findType?]
  split <;> simp_all

theorem findType?_name (h : trim cs = name) (hname : ∀ c ∈ name, c ≠ '*') :
    findType? t cs = t.named? (String.ofList name) := by
  rw [findType?]
  split
  · rename_i hstar
    exact absurd rfl (hname '*' (by simp [← h, hstar]))
  · rw [h]

theorem findType?_starred {text : List Char} (h : Starred name depth text) (hname : IsDeclarable name)
    (htrim : trim cs = trim text) : findType? t cs = t.pointers? (String.ofList name) depth := by
  induction h generalizing cs with
  | name hwhole =>
    have hqualified := TypeExpr.isQualified_iff.2 hname.qualified
    exact findType?_name (hname.trim_eq hwhole htrim) fun c hc => (TypeExpr.ne_of_isQualified hqualified c hc).1
  | @star depth rest whole hwhole _ ih =>
    rw [findType?_star (TypeExpr.trim_star hwhole htrim), ih (Text.trim_trimEnd rest), TypeTable.pointers?]

end RoleTable

/-! ### What a program was written with -/

/-- Just where a shape is written with the part `e`, a type of the shape has `id` there. -/
inductive TypeTable.Spells (t : TypeTable) (e : TypeExpr) (id : TypeId) : TypeShape → TypeId → Prop
  | plain {e' : TypeExpr} {type : TypeId} (h : e' = e ↔ type = id) : Spells t e id (.plain e') type
  | function {shape : SignatureShape} {sig : Signature} {type : TypeId} (htype : t.get? type = some (.signature sig))
    (hparams : List.Forall₂ (fun e' c => e' = e ↔ c = id) shape.params sig.params)
    (hresults : List.Forall₂ (fun e' c => e' = e ↔ c = id) shape.results sig.results) :
    Spells t e id (.function shape) type

/-- The type `id` is what a text stands for in a program: where the program reads the text, which adds nothing, where it
was read while the program was built, and in the types of all symbols, if dumps declare them. -/
structure Program.StandsFor (p : Program) (text : String) (id : TypeId) : Prop where
  now : Build.parseType text p = .ok id p
  before : ∀ p₀ id₀ p₁, p₀.Built → Build.parseType text p₀ = .ok id₀ p₁ → p₁.LeadsBy p → id₀ = id
  symbols : ∀ ds, Program.ofDumps ds = .ok p →
    List.Forall₂ (fun shape obj => Option.Rel (p.types.Spells (.read text) id) shape.type obj.type)
      ((itemsOf ds).filterMap Item.object?) p.objects.toList

namespace TypeTable

variable {t : TypeTable} {e : TypeExpr} {id type : TypeId} {shape : TypeShape}

/-- In a well-formed table the types and their shapes are one to one. -/
theorem HasShape.spells (h : t.HasShape shape type) (ht : t.WellFormed) (hid : t.Denotes e id) :
    t.Spells e id shape type := by
  have hiff : ∀ {e' c}, t.Denotes e' c → (e' = e ↔ c = id) := by
    intro e' c hc
    refine ⟨?_, ?_⟩
    · rintro rfl
      exact hc.id_unique ht hid
    · rintro rfl
      exact hc.expr_unique hid
  cases h with
  | plain h => exact .plain (hiff h)
  | function htype hsig => exact .function htype (hsig.params.imp fun _ _ => hiff) (hsig.results.imp fun _ _ => hiff)

end TypeTable

namespace Program

variable {p : Program} {text : String} {id : TypeId}

/-- The symbols of a program from dumps have the types that the dumps write. -/
theorem typed_of_ofDumps {ds : List PackageDump} (h : ofDumps ds = .ok p) :
    List.Forall₂ (fun shape obj => Option.Rel p.types.HasShape shape.type obj.type)
      ((itemsOf ds).filterMap Item.object?) p.objects.toList := by
  obtain ⟨-, files, q, hmerges⟩ := merges_of_ofDumps h
  rw [hmerges.carries.objects]
  exact hmerges.describes.objects.imp fun shape obj hobj =>
    rel_imp hobj.type fun _ _ htype => htype.mono hmerges.carries.types.old.growsTo

/-- A text that is read without adding anything has stood for the same type all along. -/
theorem StandsFor.of_parse (h : TypeTable.parse text p.types = .ok id p.types) : p.StandsFor text id where
  now := Build.parseType_eq_ok_iff.2 ⟨p.types, h, rfl⟩
  before p₀ id₀ p₁ hp₀ hread hleads := by
    have hp₁ := ((LeadsBy.of_parseType hread).keeps hp₀.wellFormed).1
    obtain ⟨hp, hgrows⟩ := hleads.keeps hp₁
    have hid₀ := (hp₀.wellFormed.reads hread).denotes.mono hgrows.types
    exact hid₀.id_unique hp.table (TypeTable.reads_of_parse hp.table h).denotes
  symbols ds hds := by
    have hp := (wellFormed_of_ofDumps hds).table
    have hid := (TypeTable.reads_of_parse hp h).denotes
    exact (typed_of_ofDumps hds).imp fun _ _ htype => rel_imp htype fun _ _ hshape => hshape.spells hp hid

end Program

/-! ### Manifests -/

namespace RoleTable

variable {name : List Char} {depth : Nat} {text : String}

/-- The search for a declared name behind some stars finds what reading the text gives, and then reading adds nothing;
where it finds nothing, reading fails or adds a type that was not there.  So the types that a role table has for a
manifest are those that the same text stands for in the program. -/
theorem findType?_agrees (hname : IsDeclarable name) (htext : Starred name depth text.toList) :
    (∀ t id, findType? t text.toList = some id → TypeTable.parse text t = .ok id t) ∧
    (∀ t id u, findType? t text.toList = none → TypeTable.parse text t = .ok id u →
      t.Gains u ∧ ∃ ty, TypeTable.NewIn t u ty) ∧
    ∀ p manifest roles, discover p manifest = .ok roles →
      (Starred name depth manifest.builder.toList → p.StandsFor text roles.builder) ∧
      (Starred name depth manifest.fieldSelection.toList → p.StandsFor text roles.fieldSelection) := by
  have hfind : ∀ t, findType? t text.toList = t.pointers? (String.ofList name) depth := fun t =>
    findType?_starred htext hname rfl
  have hread : TypeTable.parse text = (pointers (String.ofList name) depth).resolve := by
    rw [TypeTable.parse, htext.parse_eq hname rfl]
  have hsearch : ∀ t id, findType? t text.toList = some id → TypeTable.parse text t = .ok id t := by
    intro t id hid
    rw [hread]
    exact TypeTable.resolve_of_pointers? (hfind t ▸ hid)
  refine ⟨hsearch, fun t id u hnone hrun => ?_, fun p manifest roles hroles => ?_⟩
  · rw [hread] at hrun
    exact TypeTable.newIn_of_resolve (hfind t ▸ hnone) hrun
  · obtain ⟨sources, named, hdiscovery⟩ := discover_eq_ok_iff.1 hroles
    have hstands : ∀ {expr : String} {id}, Starred name depth expr.toList → findType? p.types expr.toList = some id →
        p.StandsFor text id := by
      intro expr id hexpr hid
      rw [findType?_starred hexpr hname rfl, ← hfind p.types] at hid
      exact .of_parse (hsearch p.types id hid)
    exact ⟨fun h => hstands h hdiscovery.builder, fun h => hstands h hdiscovery.fieldSelection⟩

end RoleTable

/-- A cursor is handled by pointers to it. -/
def PackageDump.cursor : PackageDump where
  types := [{ name := "db.Cursor", methods := [
    { name := "Next", pointer := true, params := ["...int"], results := ["*db.Cursor"] }] }]
  objects := [{ key := "c", kind := .var, type := " * db.Cursor" }, { key := "offsetof", kind := .builtin }]

/-- The program of the dump. -/
def Program.cursor : Program where
  types := ⟨#[.named ⟨"db.Cursor", none, none, [0]⟩, .pointer 0, .basic "int", .slice 2, .signature ⟨[3], true, [1]⟩]⟩
  objects := #[⟨"(*db.Cursor).Next", "Next", .method, some 4, some 1, none⟩, ⟨"c", "c", .var, some 1, none, none⟩,
    ⟨"offsetof", "offsetof", .builtin, none, none, none⟩]

/-- A manifest with the pointer to a cursor as its types, with blanks in other places. -/
def Manifest.cursor : Manifest where
  builder := "*db.Cursor\t"
  fieldSelection := "* db.Cursor"
  fieldOffset := "offsetof"
  chainSources := ["*db.Cursor"]
  methods := []

namespace RoleTable

theorem isDeclarable_cursor : IsDeclarable "db.Cursor".toList where
  qualified := TypeExpr.isQualified_iff.1 (by decide +kernel)
  notAny := by decide
  notPredeclared := by decide

/-- Blanks may be before a star, between it and the name, and behind the name. -/
theorem starred_cursor : Starred "db.Cursor".toList 1 " * db.Cursor".toList ∧
    Starred "db.Cursor".toList 1 "*db.Cursor\t".toList ∧ Starred "db.Cursor".toList 1 "* db.Cursor".toList := by
  have hname : Starred "db.Cursor".toList 0 "db.Cursor".toList := .name (.refl _)
  have hspace : Starred "db.Cursor".toList 0 " db.Cursor".toList := .name ⟨[' '], [], by simp; decide, nofun, rfl⟩
  exact ⟨.star ⟨[' '], [], by simp; decide, nofun, rfl⟩ hspace, .star ⟨[], ['\t'], nofun, by simp; decide, rfl⟩ hname,
    .star (.refl _) hspace⟩

/-- The method and the variable of the dump have the builder type, and without the pointer reading the text adds it. -/
theorem findType?_agrees_cursor :
    (∃ p roles, Program.ofDumps [.cursor] = .ok p ∧ discover p .cursor = .ok roles ∧
      p.StandsFor " * db.Cursor" roles.builder ∧ p.StandsFor " * db.Cursor" roles.fieldSelection) ∧
    ∃ u ty, TypeTable.parse " * db.Cursor" ⟨#[.named (.blank "db.Cursor")]⟩ = .ok 1 u ∧
      TypeTable.NewIn ⟨#[.named (.blank "db.Cursor")]⟩ u ty := by
  obtain ⟨hspaced, htabbed, hinner⟩ := starred_cursor
  obtain ⟨-, hmissing, hstands⟩ := findType?_agrees isDeclarable_cursor hspaced
  have hdumps : Program.ofDumps [.cursor] = .ok .cursor := by decide +kernel
  have hroles : discover .cursor .cursor = .ok ⟨[(0, .preserve)], 1, 1, 2, ⟨"toyorm", "alias"⟩⟩ := by decide +kernel
  have hread : TypeTable.parse " * db.Cursor" ⟨#[.named (.blank "db.Cursor")]⟩ =
      .ok 1 ⟨#[.named (.blank "db.Cursor"), .pointer 0]⟩ := by
    decide +kernel
  obtain ⟨hbuilder, hselection⟩ := hstands .cursor .cursor _ hroles
  obtain ⟨-, ty, hnew⟩ := hmissing _ _ _ (by decide +kernel) hread
  exact ⟨⟨.cursor, _, hdumps, hroles, hbuilder htabbed, hselection hinner⟩, _, ty, hread, hnew⟩

end RoleTable

end FluentChain
