import FluentChain.Proofs.Build.Operation

/-!
# What operations change

Most operations declare no symbol.  Such an operation changes files and nodes, adds types, or makes more known of a
named type (`Program.Changes`), whatever it is given, and where it fails as well.  So types keep what they are in
all that is done to a program: a named type can be given a position or a definition that it did not have, and
methods behind those it has, and no other type ever changes (`Program.LeadsBy.develops`).
-/

namespace FluentChain

/-- The declaration `e` says what `d` says and may say more. -/
structure NamedType.Develops (d e : NamedType) : Prop where
  name : e.name = d.name
  pos : ∀ pos ∈ d.pos, e.pos = some pos
  underlying : ∀ id ∈ d.underlying, e.underlying = some id
  methods : d.methods <+: e.methods

namespace NamedType.Develops

variable {d e f : NamedType}

theorem refl (d : NamedType) : d.Develops d := ⟨rfl, fun _ h => h, fun _ h => h, List.prefix_refl _⟩

theorem trans (h : d.Develops e) (h' : e.Develops f) : d.Develops f where
  name := h'.name.trans h.name
  pos pos hpos := h'.pos pos (h.pos pos hpos)
  underlying id hid := h'.underlying id (h.underlying id hid)
  methods := h.methods.trans h'.methods

end NamedType.Develops

namespace TypeTable

variable {t u v : TypeTable}

/-- The table `u` has what `t` has at the same indices; more may be known of its named types. -/
structure Develops (t u : TypeTable) : Prop where
  unnamed : ∀ {id : TypeId} {ty : Ty}, t.get? id = some ty → (∀ decl, ty ≠ .named decl) → u.get? id = some ty
  named : ∀ {id : TypeId} {d : NamedType}, t.get? id = some (.named d) →
    ∃ e, u.get? id = some (.named e) ∧ d.Develops e

theorem Develops.refl (t : TypeTable) : t.Develops t := ⟨fun h _ => h, fun h => ⟨_, h, .refl _⟩⟩

theorem Develops.trans (h : t.Develops u) (h' : u.Develops v) : t.Develops v where
  unnamed hid hty := h'.unnamed (h.unnamed hid hty) hty
  named hid := by
    obtain ⟨e, he, hd⟩ := h.named hid
    obtain ⟨f, hf, he'⟩ := h'.named he
    exact ⟨f, hf, hd.trans he'⟩

/-- A type that comes to the end of the table changes none before it. -/
theorem develops_push (t : TypeTable) (ty : Ty) : t.Develops (t.push ty).2 where
  unnamed hid _ := get?_push_of_some hid
  named hid := ⟨_, get?_push_of_some hid, .refl _⟩

/-- A named type may be given what it does not have, and no other type changes with it. -/
theorem develops_modifyDecl {id : TypeId} {decl : NamedType} {f : NamedType → NamedType}
    (hid : t.get? id = some (.named decl)) (hf : decl.Develops (f decl)) : t.Develops (t.modifyDecl id f) where
  unnamed {j ty} hj hty := by
    rw [get?_modifyDecl hid, if_neg, hj]
    rintro rfl
    exact hty decl (Option.some.inj (hj.symm.trans hid))
  named {j d} hj := by
    rw [get?_modifyDecl hid]
    split
    · obtain rfl : d = decl := by simpa [‹j = id›, hid, eq_comm] using hj
      exact ⟨_, rfl, hf⟩
    · exact ⟨d, hj, .refl d⟩

end TypeTable

/-! ### Changes that declare no symbol -/

namespace Program

variable {p q r : Program}

/-- A change that declares no symbol: to files and nodes, by one more type, or by more that is known of a named type,
its methods aside. -/
inductive Change (p : Program) : Program → Prop
  | elsewhere (files : Array SourceFile) (nodes : Array NodeData) : Change p { p with files, nodes }
  | newType (ty : Ty) (hty : ∀ decl, ty = .named decl → decl.methods = []) :
    Change p { p with types := (p.types.push ty).2 }
  | known {id : TypeId} {decl : NamedType} (f : NamedType → NamedType) (hid : p.types.get? id = some (.named decl))
    (hf : decl.Develops (f decl)) (hmethods : (f decl).methods = decl.methods) :
    Change p { p with types := p.types.modifyDecl id f }

/-- Changes lead from `p` to `q`, none of which declares a symbol. -/
def Changes : Program → Program → Prop := Relation.ReflTransGen Change

theorem Changes.refl (p : Program) : p.Changes p := Relation.ReflTransGen.refl

theorem Changes.trans (h : p.Changes q) (h' : q.Changes r) : p.Changes r := Relation.ReflTransGen.trans h h'

theorem Change.changes (h : p.Change q) : p.Changes q := Relation.ReflTransGen.single h

/-- Changes declare no symbol. -/
theorem Changes.objects (h : p.Changes q) : q.objects = p.objects := by
  induction h with
  | refl => rfl
  | tail _ hstep ih =>
    rw [← ih]
    cases hstep <;> rfl

/-- Types keep what they are through changes. -/
theorem Changes.develops (h : p.Changes q) : p.types.Develops q.types := by
  induction h with
  | refl => exact .refl _
  | tail _ hstep ih =>
    refine ih.trans ?_
    cases hstep with
    | elsewhere files nodes => exact .refl _
    | newType ty => exact TypeTable.develops_push _ ty
    | known f hid hf => exact TypeTable.develops_modifyDecl hid hf

end Program

namespace Build

variable {α β : Type} {p : Program} {m : Build α} {f : α → Build β}

/-- From `p` the step does nothing but changes that declare no symbol, where it fails as well. -/
def ChangesIn (p : Program) (m : Build α) : Prop := p.Changes (stateAfter m p)

namespace ChangesIn

theorem pure {a : α} : ChangesIn p (Pure.pure a) := .refl p

theorem throw {e : LoadError} : ChangesIn p (MonadExcept.throw e : Build α) := .refl p

/-- Steps that change are done one after another, and the second goes on where the first has led to. -/
theorem bind (hm : ChangesIn p m) (hf : ∀ a q, m p = .ok a q → ChangesIn q (f a)) : ChangesIn p (m >>= f) := by
  unfold ChangesIn stateAfter at hm
  cases hrun : m p with
  | ok a q =>
    rw [hrun] at hm
    unfold ChangesIn stateAfter
    rw [bind_of_ok hrun]
    exact Program.Changes.trans hm (hf a q hrun)
  | error e q =>
    rw [hrun] at hm
    unfold ChangesIn stateAfter
    rw [bind_of_error hrun]
    exact hm

theorem get_bind {f : Program → Build α} (h : ChangesIn p (f p)) : ChangesIn p (get >>= f) := h

theorem modifyGet {f : Program → α × Program} (h : p.Changes (f p).2) : ChangesIn p (MonadState.modifyGet f) := h

end ChangesIn

/-! ### Files and nodes -/

/-- To register a file is a change, or none where it is known. -/
theorem changes_file (name : String) : ChangesIn p (file name) := by
  refine .modifyGet ?_
  split
  · exact .refl p
  · exact (Program.Change.elsewhere _ _).changes

/-- To read a position changes the files at most. -/
theorem changes_position (text : String) (inherited : Option FileId) : ChangesIn p (position text inherited) := by
  unfold position
  split
  · exact .throw
  · exact .bind (changes_file _) fun _ _ _ => .pure
  · split
    · exact .pure
    · exact .throw

theorem changes_addNode (node : Node) (pos : Pos) (type : Option TypeId) : ChangesIn p (addNode node pos type) :=
  .modifyGet (Program.Change.elsewhere _ _).changes

/-! ### Types -/

theorem changes_push {ty : Ty} (hty : ∀ decl, ty = .named decl → decl.methods = []) :
    ChangesIn p (onTypes (·.push ty)) :=
  .modifyGet (Program.Change.newType ty hty).changes

/-- To intern a type changes the table, or nothing where it has been interned before. -/
theorem changes_intern {ty : Ty} (hshared : ty.IsShared) : ChangesIn p (intern ty) := by
  refine .modifyGet ?_
  dsimp only [TypeTable.intern]
  split
  · exact .refl p
  · refine (Program.Change.newType ty ?_).changes
    rintro decl rfl
    exact hshared.elim

/-- A position that is given with a name is the one of a type that had none. -/
theorem develops_place (decl : NamedType) (pos : Option Pos) : decl.Develops { decl with pos := decl.pos <|> pos } where
  name := rfl
  pos place hplace := by
    rw [Option.mem_def] at hplace
    simp [hplace]
  underlying _ h := h
  methods := List.prefix_refl _

/-- To declare a type gives it a position or adds it, without methods. -/
theorem changes_declareType (name : String) (pos : Option Pos) : ChangesIn p (declareType name pos) := by
  refine .modifyGet ?_
  dsimp only [TypeTable.declare]
  split
  · rename_i id hn
    obtain ⟨decl, hid, -⟩ := TypeTable.get?_of_named? hn
    exact (Program.Change.known _ hid (develops_place decl pos) rfl).changes
  · refine (Program.Change.newType _ ?_).changes
    rintro decl ⟨⟩
    rfl

/-- To resolve an expression makes changes, also where it fails behind some of its parts. -/
theorem changes_resolve (e : TypeExpr) : ChangesIn p (reading e.resolve) := by
  induction e generalizing p with
  | pointer elem ih | slice elem ih | array elem ih =>
    rw [TypeExpr.resolve, reading_bind]
    exact .bind ih fun _ _ _ => changes_intern trivial
  | map key value ihk ihv =>
    rw [TypeExpr.resolve, reading_bind]
    refine .bind ihk fun _ _ _ => ?_
    rw [reading_bind]
    exact .bind ihv fun _ _ _ => changes_intern trivial
  | interface | basic => exact changes_intern trivial
  | declared name =>
    rw [TypeExpr.resolve, reading_bind]
    refine .bind (.refl p) fun t q hrun => ?_
    cases hn : t.named? name with
    | some id => exact .pure
    | none =>
      by_cases hname : '.' ∈ name.toList
      · simp only [hname, ↓reduceIte]
        exact changes_declareType name none
      · simp only [hname, ↓reduceIte]
        exact .throw
  | malformed text flaw => exact .throw

/-- To parse a type makes changes, also where it fails. -/
theorem changes_parseType (text : String) : ChangesIn p (parseType text) := by
  rw [parseType_eq]
  exact changes_resolve _

/-- A type is given a definition only where it had none. -/
theorem changes_setUnderlying (id underlying : TypeId) : ChangesIn p (setUnderlying id underlying) := by
  unfold ChangesIn stateAfter
  rw [run_setUnderlying]
  cases hdecl : p.types.decl? id with
  | none => exact .refl p
  | some decl =>
    dsimp only
    by_cases hold : decl.underlying.isSome
    · rw [if_pos hold]
      exact .refl p
    · rw [if_neg hold]
      refine (Program.Change.known _ (TypeTable.get?_of_decl? hdecl) ⟨rfl, fun _ h => h, fun id hid => ?_, ?_⟩
        rfl).changes
      · exact absurd (Option.isSome_of_mem hid) hold
      · exact List.prefix_refl _

theorem changes_defineStruct (id : TypeId) (fields : List Field) : ChangesIn p (defineStruct id fields) :=
  .bind (changes_push nofun) fun _ _ _ => changes_setUnderlying id _

/-! ### Syntax -/

theorem changes_literal (kind : LiteralKind) (raw : String) (pos : Pos) : ChangesIn p (literal kind raw pos) := by
  have hshared : (Ty.basic (literalType kind)).IsShared := trivial
  exact .bind (changes_intern hshared) fun _ _ _ => changes_addNode _ _ _

/-- To make the type of a unary expression changes the table at most. -/
theorem changes_unaryType (op : String) (type : TypeId) : ChangesIn p (unaryType op type) := by
  unfold unaryType
  split
  · exact .bind (changes_intern trivial) fun _ _ _ => .pure
  · split
    · refine .get_bind ?_
      split <;> exact .pure
    · exact .pure

theorem changes_unary (op : String) (x : NodeId) (pos : Pos) : ChangesIn p (unary op x pos) := by
  refine .get_bind ?_
  dsimp only
  split
  · exact .bind (changes_unaryType op _) fun _ _ _ => changes_addNode _ _ _
  · exact changes_addNode _ _ _

/-! ### Operations -/

def Operation.DeclaresSymbol : Operation → Prop
  | .object .. | .method .. => True
  | _ => False

/-- Any operation but those that declare a symbol makes changes. -/
theorem Operation.changes {op : Operation} (hop : op.Fits p) (h : ¬ op.DeclaresSymbol) : p.Changes (op.after p) := by
  cases op with
  | object | method => exact absurd trivial h
  | file name => exact changes_file name
  | position text inherited => exact changes_position text inherited
  | declareType name pos => exact changes_declareType name pos
  | intern ty => exact changes_intern hop.1
  | parseType text => exact changes_parseType text
  | signature sig => exact changes_push nofun
  | setUnderlying id underlying => exact changes_setUnderlying id underlying
  | defineStruct id fields => exact changes_defineStruct id fields
  | literal kind raw pos => exact changes_literal kind raw pos
  | unary op x pos => exact changes_unary op x pos
  | _ => exact (Program.Change.elsewhere _ _).changes

/-- A symbol leaves the types as they are, but for the method that its owner is given. -/
theorem Operation.develops {op : Operation} (hop : op.Fits p) : p.types.Develops (op.after p).types := by
  cases op with
  | object key name kind type pos =>
    simp only [Operation.after, stateAfter, run_object]
    cases p.lookupObject? key <;> exact .refl _
  | method recv name sig =>
    simp only [Operation.after, stateAfter, run_method]
    cases howner : p.types.methodOwner? recv with
    | none => exact .refl _
    | some owner =>
      cases p.lookupObject? (methodKey p.types recv name) with
      | some o => exact .refl _
      | none =>
        obtain ⟨decl, hid⟩ := get?_methodOwner? howner
        exact TypeTable.develops_modifyDecl hid ⟨rfl, fun _ h => h, fun _ h => h, List.prefix_append _ _⟩
  | _ => exact (Operation.changes hop id).develops

end Build

/-- Types keep what they are in all that is done to a program. -/
theorem Program.LeadsBy.develops {p q : Program} (h : p.LeadsBy q) : p.types.Develops q.types := by
  induction h with
  | refl => exact .refl _
  | tail _ hstep ih =>
    obtain ⟨op, hop, rfl⟩ := hstep
    exact ih.trans (Build.Operation.develops hop)

end FluentChain
