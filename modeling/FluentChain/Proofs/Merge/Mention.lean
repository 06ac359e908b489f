import FluentChain.Proofs.Merge.Phases

/-!
# What syntax mentions

Syntax trees mention positions, types and symbols, and adding them to a program succeeds exactly if all of these
make sense there (`mentions_tree`).  Of what was declared before the syntax nothing is changed: at most there are
types that were not there, and names among them of which nothing is known (`Carries`).
-/

namespace FluentChain

inductive Mention
  | place (text : String)
  | type (text : String)
  | symbol (key : String)

/-- Whether a mention makes sense in a program. -/
def Mention.Sound (declared : List String) (p : Program) : Mention → Prop
  | .place text => (WrittenPos.parse? text).isSome
  | .type text => (TypeExpr.read text).Known declared
  | .symbol key => (p.lookupObject? key).isSome

/-- The shapes that a mention may add. -/
def Mention.shapes : Mention → List TypeExpr
  | .type text => (TypeExpr.read text).parts
  | _ => []

/-! ### Collecting mentions -/

def IdentDump.mentions (i : IdentDump) : List Mention :=
  i.obj.toList.map .symbol ++ (.place i.pos :: i.type.toList.map .type)

namespace NodeDump

mutual

/-- The mentions in a tree, in the order they are met. -/
def mentions : NodeDump → List Mention
  | .ident i => i.mentions
  | .selector x sel type => x.mentions ++ (sel.mentions ++ type.toList.map .type)
  | .call callee args _ type => callee.mentions ++ (mentionsOf args ++ type.toList.map .type)
  | .composite type elts pos => .type type :: (mentionsOf elts ++ [.place pos])
  | .keyValue key value => key.mentions ++ value.mentions
  | .literal _ _ pos => [.place pos]
  | .unary _ x pos => x.mentions ++ [.place pos]
  | .block stmts pos => mentionsOf stmts ++ [.place pos]
  | .assign lhs rhs _ => mentionsOf lhs ++ mentionsOf rhs
  | .valueDecl names values => names.flatMap (·.mentions) ++ mentionsOf values
  | .other _ children pos => mentionsOf children ++ [.place pos]

def mentionsOf : List NodeDump → List Mention
  | [] => []
  | node :: rest => node.mentions ++ mentionsOf rest

end

end NodeDump

def FileDump.mentions (f : FileDump) : List Mention := f.decls.flatMap (·.mentions)

/-! ### Names -/

namespace TypeTable

variable {declared : List String} {t u : TypeTable} {ty : Ty} {name : String}

/-- A new type has a name only if it is declared under one, and so the table has the names that it had and this one. -/
theorem has_declared_push_iff :
    (t.push ty).2.Has (.declared name) ↔ t.Has (.declared name) ∨ ∃ decl, ty = .named decl ∧ decl.name = name := by
  constructor
  · rintro ⟨id, hid⟩
    obtain ⟨decl, hid, hname⟩ := denotes_declared_iff.1 hid
    rw [get?_push] at hid
    split at hid
    · exact Or.inr ⟨decl, Option.some.inj hid, hname⟩
    · exact Or.inl ⟨id, denotes_declared_iff.2 ⟨decl, hid, hname⟩⟩
  · rintro (h | ⟨decl, rfl, rfl⟩)
    · exact h.mono (growsTo_push t ty)
    · exact (Denotes.declared (get?_push_size t _)).has

/-- The table `u` has the entries of `t`, and besides names among some shapes it may have other types. -/
structure Named (declared : List String) (t : TypeTable) (shapes : List TypeExpr) (u : TypeTable) : Prop where
  declares : u.Declares declared
  old : t.Extends u
  has : ∀ name, u.Has (.declared name) ↔ t.Has (.declared name) ∨ .declared name ∈ shapes

/-- To intern a type that is no declaration adds no name. -/
theorem Named.intern {shapes : List TypeExpr} (h : Named declared t shapes u) (hty : ∀ decl, ty ≠ .named decl) :
    Named declared t shapes (u.intern ty).2 := by
  unfold TypeTable.intern
  split
  · exact h
  · have hnames : ∀ name, (u.push ty).2.Has (.declared name) ↔ u.Has (.declared name) := by
      intro name
      rw [has_declared_push_iff]
      refine or_iff_left ?_
      rintro ⟨decl, hd, -⟩
      exact hty decl hd
    refine ⟨⟨fun name hname => (hnames name).2 (h.declares.has name hname),
      fun name hname => h.declares.only name ((hnames name).1 hname)⟩,
      h.old.trans (extends_push u fun decl hd => absurd hd (hty decl)), fun name => ?_⟩
    rw [hnames, h.has]

/-- Shapes without names are of no account. -/
theorem Named.of_shapes {shapes shapes' : List TypeExpr} (h : Named declared t shapes u)
    (hshapes : ∀ name, .declared name ∈ shapes ↔ .declared name ∈ shapes') : Named declared t shapes' u :=
  ⟨h.declares, h.old, fun name => by rw [h.has, hshapes]⟩

/-- Resolving an expression succeeds if its names are known, and adds no name but those it has, by induction on it. -/
theorem decides_resolve_named (e : TypeExpr) (shapes : List TypeExpr) :
    Decides (Named declared t shapes) e.resolve (e.Known declared) fun _ => Named declared t (shapes ++ e.parts) := by
  induction e generalizing shapes with
  | pointer elem ih | slice elem ih | array elem ih =>
    refine Decides.bind_total (ih shapes) fun _ a => Decides.modifyGet fun u hu => ?_
    exact (hu.intern (by simp)).of_shapes (by simp [TypeExpr.parts])
  | map key value ihk ihv =>
    refine Decides.bind (ihk shapes) fun _ k => Decides.bind_total (ihv _) fun _ v => Decides.modifyGet fun u hu => ?_
    exact (hu.intern (by simp)).of_shapes (by simp [TypeExpr.parts])
  | interface | basic name =>
    exact Decides.modifyGet fun u hu => (hu.intern (by simp)).of_shapes (by simp [TypeExpr.parts])
  | declared name =>
    intro s hs
    rw [TypeExpr.resolve, get_bind]
    cases hn : s.named? name with
    | some id =>
      have hid := Denotes.of_named? hn
      refine ⟨hs.declares.only name hid.has, hs.declares, hs.old, fun other => ?_⟩
      rw [hs.has, List.mem_append, ← or_assoc]
      refine (or_iff_left_of_imp fun hother => ?_).symm
      cases List.mem_singleton.1 hother
      exact (hs.has name).1 hid.has
    | none =>
      by_cases hname : '.' ∈ name.toList
      · simp only [hname, ↓reduceIte]
        have hnew := named?_eq_none_iff.1 hn
        have hdeclare : (s.declare name none).2 = (s.push (.named (.blank name))).2 := by
          simp only [declare, hn]
          rfl
        have hnames : ∀ other,
            (s.declare name none).2.Has (.declared other) ↔ s.Has (.declared other) ∨ name = other := by
          intro other
          rw [hdeclare, has_declared_push_iff]
          simp [NamedType.blank]
        refine ⟨Or.inl hname, ⟨fun other hother => (hnames other).2 (Or.inl (hs.declares.has other hother)),
          fun other hother => ?_⟩, ?_, fun other => ?_⟩
        · rcases (hnames other).1 hother with hother | rfl
          · exact hs.declares.only other hother
          · exact Or.inl hname
        · show t.Extends (s.declare name none).2
          rw [hdeclare]
          refine hs.old.trans (extends_push s fun decl hdecl => ?_)
          cases hdecl
          exact ⟨hnew, rfl⟩
        · show (s.declare name none).2.Has _ ↔ _
          rw [hnames, hs.has, List.mem_append, or_assoc, TypeExpr.parts, List.mem_singleton, TypeExpr.declared.injEq,
            eq_comm (a := name)]
      · simp only [hname, ↓reduceIte]
        rintro (h | h)
        · exact hname h
        · exact named?_eq_none_iff.1 hn (hs.declares.has name h)
  | malformed text flaw => exact Decides.throw

end TypeTable

/-! ### Steps that add syntax -/

/-- The program `q` is `p` with syntax that has some mentions added. -/
structure Carries (declared : List String) (p : Program) (ms : List Mention) (q : Program) : Prop where
  types : p.types.Named declared (ms.flatMap Mention.shapes) q.types
  objects : q.objects = p.objects

namespace Build

variable {declared : List String} {p : Program} {α β : Type}

/-- The step adds syntax with some mentions. -/
def Mentions (m : Build α) (ms : List Mention) : Prop :=
  ∀ declared p before, Decides (Carries declared p before) m (∀ x ∈ ms, x.Sound declared p)
    fun _ => Carries declared p (before ++ ms)

namespace Mentions

variable {ms ms' : List Mention} {m : Build α}

/-- A step that always succeeds and mentions nothing. -/
theorem of_total (h : ∀ declared p before, Decides (Carries declared p before) m True
    fun _ => Carries declared p before) : Mentions m [] := by
  intro declared p before
  rw [List.append_nil]
  exact (h declared p before).congr (iff_of_true trivial (by simp))

/-- To give a value mentions nothing. -/
theorem pure (a : α) : Mentions (Pure.pure a) [] := of_total fun _ _ _ => Decides.pure fun _ h => h

/-- What two steps mention is what the first does and then what the second does. -/
theorem bind {f : α → Build β} (hm : Mentions m ms) (hf : ∀ a, Mentions (f a) ms') :
    Mentions (m >>= f) (ms ++ ms') := by
  intro declared p before
  rw [← List.append_assoc]
  exact (Decides.bind (hm declared p before) fun _ a => hf a declared p _).congr List.forall_mem_append.symm

/-- A step whose result does not bear on what follows it. -/
theorem silent_bind {f : α → Build β} (hm : Mentions m []) (hf : ∀ a, Mentions (f a) ms) : Mentions (m >>= f) ms :=
  bind hm hf

theorem bind_silent {f : α → Build β} (hm : Mentions m ms) (hf : ∀ a, Mentions (f a) []) : Mentions (m >>= f) ms :=
  List.append_nil ms ▸ bind hm hf

/-- What a loop mentions is what its rounds do, one after another. -/
theorem mapM {f : α → Build β} {g : α → List Mention} (l : List α) (h : ∀ a, Mentions (f a) (g a)) :
    Mentions (l.mapM f) (l.flatMap g) := by
  induction l with
  | nil => exact pure []
  | cons a l ih =>
    rw [List.mapM_cons, List.flatMap_cons]
    exact bind (h a) fun b => bind_silent ih fun bs => pure _

theorem forM {f : α → Build PUnit} {g : α → List Mention} (l : List α) (h : ∀ a, Mentions (f a) (g a)) :
    Mentions (l.forM f) (l.flatMap g) := by
  induction l with
  | nil => exact pure PUnit.unit
  | cons a l ih => exact bind (h a) fun _ => ih

theorem option_mapM {f : α → Build β} {g : α → List Mention} (h : ∀ a, Mentions (f a) (g a)) (a : Option α) :
    Mentions (a.mapM f) (a.toList.flatMap g) := by
  cases a with
  | none => exact pure none
  | some a =>
    have hsome : Mentions (f a >>= fun b => Pure.pure (some b)) (g a) := bind_silent (h a) fun b => pure (some b)
    simpa using hsome

/-- A step that always succeeds and changes neither types nor symbols. -/
theorem of_modifyGet {f : Program → α × Program} (htypes : ∀ p, (f p).2.types = p.types)
    (hobjects : ∀ p, (f p).2.objects = p.objects) : Mentions (modifyGet f) [] :=
  of_total fun _ _ _ => Decides.modifyGet fun q hq =>
    ⟨(htypes q).symm ▸ hq.types, (hobjects q).trans hq.objects⟩

theorem get : Mentions (MonadState.get : Build Program) [] := of_total fun _ _ _ _ hq => ⟨trivial, hq⟩

end Mentions

/-- To parse a type mentions it. -/
theorem mentions_parseType (text : String) : Mentions (parseType text) [.type text] := by
  rintro declared p before q hq
  have hread := TypeTable.decides_resolve_named (.read text) _ q.types hq.types
  unfold parseType TypeTable.parse
  revert hread
  cases (TypeExpr.read text).resolve q.types with
  | ok id types => exact fun h => ⟨List.forall_mem_singleton.2 h.1, by simpa [Mention.shapes] using h.2, hq.objects⟩
  | error e types => exact fun h hsound => h (hsound _ List.mem_cons_self)

/-- To intern a type that is no declaration mentions nothing. -/
theorem mentions_intern {ty : Ty} (hty : ∀ decl, ty ≠ .named decl) : Mentions (intern ty) [] :=
  Mentions.of_total fun _ _ _ => Decides.modifyGet fun _ hq => ⟨hq.types.intern hty, hq.objects⟩

theorem mentions_file (name : String) : Mentions (file name) [] := by
  refine Mentions.of_modifyGet (fun p => ?_) fun p => ?_ <;> split <;> rfl

/-- A step that mentions nothing may be said to mention what makes sense everywhere. -/
theorem Mentions.of_sound {m : Build α} {x : Mention} (h : Mentions m []) (hx : ∀ declared p, x.Sound declared p)
    (hshapes : x.shapes = []) : Mentions m [x] := by
  intro declared p before
  refine ((h declared p before).weaken (fun _ h => h) fun _ q hq => ?_).congr (by simpa using hx declared p)
  exact ⟨by simpa [hshapes] using hq.types, hq.objects⟩

/-- To read a position mentions it. -/
theorem mentions_position (text : String) (inherited : FileId) :
    Mentions (position text (some inherited)) [.place text] := by
  unfold position
  cases hparse : WrittenPos.parse? text with
  | none =>
    intro declared p before
    exact Decides.throw.congr (by simp [Mention.Sound, hparse])
  | some w =>
    refine Mentions.of_sound ?_ (fun _ _ => by simp [Mention.Sound, hparse]) rfl
    obtain ⟨_ | name, line, col⟩ := w
    · exact Mentions.pure _
    · exact Mentions.bind (mentions_file name) fun _ => Mentions.pure _

/-- To look up a symbol mentions it. -/
theorem mentions_symbol (key : String) : Mentions (symbol key) [.symbol key] := by
  rintro declared p before q hq
  have hlookup : q.lookupObject? key = p.lookupObject? key := by
    simp only [Program.lookupObject?, hq.objects]
  rw [symbol, get_bind, hlookup]
  cases hobj : p.lookupObject? key with
  | none => exact fun h => by simpa [Mention.Sound, hobj] using h _ List.mem_cons_self
  | some obj => exact ⟨by simp [Mention.Sound, hobj], by simpa [Mention.shapes] using hq.types, hq.objects⟩

theorem mentions_addNode (node : Node) (pos : Pos) (type : Option TypeId) : Mentions (addNode node pos type) [] :=
  Mentions.of_modifyGet (fun _ => rfl) fun _ => rfl

/-- A node that is given a type mentions it behind what it mentions itself. -/
theorem mentions_withType {m : Build NodeId} {ms : List Mention} (h : Mentions m ms) (type : Option String) :
    Mentions (m >>= fun n => withType n type) (ms ++ type.toList.map .type) := by
  refine Mentions.bind h fun n => ?_
  cases type with
  | none => exact Mentions.pure n
  | some text =>
    refine Mentions.bind_silent (mentions_parseType text) fun id => ?_
    exact Mentions.silent_bind (Mentions.of_modifyGet (fun _ => rfl) fun _ => rfl) fun _ => Mentions.pure n

/-- A step that adds a node whose data it has taken from the program. -/
theorem mentions_get {f : Program → Build α} (h : ∀ p, Mentions (f p) []) : Mentions (get >>= f) [] :=
  Mentions.silent_bind Mentions.get h

theorem mentions_unaryType (op : String) (type : TypeId) : Mentions (unaryType op type) [] := by
  unfold unaryType
  split
  · exact Mentions.silent_bind (mentions_intern (by simp)) fun _ => Mentions.pure _
  · split
    · refine mentions_get fun p => ?_
      split <;> exact Mentions.pure _
    · exact Mentions.pure _

theorem mentions_unary (op : String) (x : NodeId) (pos : Pos) : Mentions (unary op x pos) [] := by
  unfold unary
  refine mentions_get fun p => ?_
  split
  · exact Mentions.silent_bind (mentions_unaryType op _) fun _ => mentions_addNode _ _ _
  · exact mentions_addNode _ _ _

theorem mentions_selector (x sel : NodeId) : Mentions (selector x sel) [] :=
  mentions_get fun _ => mentions_addNode _ _ _

theorem mentions_call (callee : NodeId) (args : List NodeId) (spread : Bool) : Mentions (call callee args spread) [] :=
  mentions_get fun _ => mentions_addNode _ _ _

/-- The node of an identifier mentions its symbol, its position and its type. -/
theorem mentions_identNode (file : FileId) (i : IdentDump) (isDef : Bool) :
    Mentions (identNode file i isDef) i.mentions := by
  have hobj : Mentions (i.obj.mapM symbol) (i.obj.toList.map .symbol) := by
    rw [List.map_eq_flatMap]
    exact Mentions.option_mapM mentions_symbol i.obj
  refine Mentions.bind hobj fun obj => Mentions.bind (mentions_position i.pos file) fun pos => ?_
  exact mentions_withType (mentions_get fun _ => mentions_addNode _ _ _) i.type

mutual

/-- Adding a tree succeeds exactly if all that it mentions makes sense. -/
theorem mentions_tree (file : FileId) : ∀ node : NodeDump, Mentions (tree file node) node.mentions
  | .ident i => by
    rw [tree, NodeDump.mentions]
    exact mentions_identNode file i _
  | .selector x sel type => by
    rw [tree, NodeDump.mentions]
    refine .bind (mentions_tree file x) fun x => .bind (mentions_identNode file sel _) fun sel => ?_
    exact mentions_withType (mentions_selector x sel) type
  | .call callee args spread type => by
    rw [tree, NodeDump.mentions]
    refine .bind (mentions_tree file callee) fun callee => .bind (mentions_trees file args) fun args => ?_
    exact mentions_withType (mentions_call callee args spread) type
  | .composite type elts pos => by
    rw [tree, NodeDump.mentions]
    refine .bind (mentions_parseType type) fun type => .bind (mentions_trees file elts) fun elts => ?_
    exact .bind_silent (mentions_position pos file) fun pos => mentions_addNode _ _ _
  | .keyValue key value => by
    rw [tree, NodeDump.mentions]
    refine .bind (mentions_tree file key) fun key => .bind_silent (mentions_tree file value) fun value => ?_
    exact mentions_get fun _ => mentions_addNode _ _ _
  | .literal kind raw pos => by
    rw [tree, NodeDump.mentions]
    refine .bind_silent (mentions_position pos file) fun pos => ?_
    exact .silent_bind (mentions_intern (by simp)) fun _ => mentions_addNode _ _ _
  | .unary op x pos => by
    rw [tree, NodeDump.mentions]
    refine .bind (mentions_tree file x) fun x => .bind_silent (mentions_position pos file) fun pos => ?_
    exact mentions_unary op x pos
  | .block stmts pos => by
    rw [tree, NodeDump.mentions]
    refine .bind (mentions_trees file stmts) fun stmts => .bind_silent (mentions_position pos file) fun pos => ?_
    exact mentions_addNode _ _ _
  | .assign lhs rhs define => by
    rw [tree, NodeDump.mentions]
    refine .bind (mentions_trees file lhs) fun lhs => .bind_silent (mentions_trees file rhs) fun rhs => ?_
    exact mentions_get fun _ => mentions_addNode _ _ _
  | .valueDecl names values => by
    rw [tree, NodeDump.mentions]
    refine .bind (.mapM names fun i => mentions_identNode file i true) fun names => ?_
    exact .bind_silent (mentions_trees file values) fun values => mentions_get fun _ => mentions_addNode _ _ _
  | .other label children pos => by
    rw [tree, NodeDump.mentions]
    refine .bind (mentions_trees file children) fun children => .bind_silent (mentions_position pos file) fun pos => ?_
    exact mentions_addNode _ _ _

/-- Trees mention what each of them does, in their order. -/
theorem mentions_trees (file : FileId) :
    ∀ nodes : List NodeDump, Mentions (trees file nodes) (NodeDump.mentionsOf nodes)
  | [] => by
    rw [trees, NodeDump.mentionsOf]
    exact .pure []
  | node :: rest => by
    rw [trees, NodeDump.mentionsOf]
    exact .bind (mentions_tree file node) fun n => .bind_silent (mentions_trees file rest) fun ns => .pure _

end

/-- The declarations of a file mention what their trees do. -/
theorem mentions_declsOf (f : FileDump) : Mentions (declsOf f) f.mentions := by
  refine .silent_bind (mentions_file f.name) fun id => .forM f.decls fun decl => ?_
  exact .bind_silent (mentions_tree id decl) fun n => .of_modifyGet (fun _ => rfl) fun _ => rfl

end Build

end FluentChain
