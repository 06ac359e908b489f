import FluentChain.Proofs.Alike.Programs
import FluentChain.Proofs.Merge.Mention

/-!
# Adding syntax to programs that are alike

The same syntax trees, added to two programs that are alike, leave them alike, or they can be added to neither
(`Build.together_tree`).  What a step adds to the types may get different indices, and what it adds to the syntax
gets the same numbers in both.  Positions in the trees must be in files that both programs list first.
-/

namespace FluentChain

open Program

/-- Whether a position that a mention makes is in one of some files. -/
def Mention.Listed (files : List String) : Mention → Prop
  | .place text => ∀ name ∈ (WrittenPos.parse? text).bind (·.file), name ∈ files
  | .type _ | .symbol _ => True

theorem Mention.Listed.mono {files more : List String} {x : Mention} (h : x.Listed files)
    (hsub : ∀ name ∈ files, name ∈ more) : x.Listed more := by
  cases x with
  | place => exact fun name hname => hsub name (h name hname)
  | type | symbol => trivial

instance Mention.decidableListed (files : List String) : (x : Mention) → Decidable (x.Listed files)
  | .place text => inferInstanceAs (Decidable (∀ name ∈ (WrittenPos.parse? text).bind (·.file), name ∈ files))
  | .type _ | .symbol _ => isTrue trivial

namespace Build

variable {N : FileNames} {p q : Program} {α β α' β' : Type}

/-- From `p` and `q`, both steps succeed and return what `R` relates, or both fail; the programs stay alike. -/
def Together (N : FileNames) (p q : Program) (m : Build α) (m' : Build β) (R : α → β → Program → Program → Prop) :
    Prop :=
  Alike N p q → RunTogether (fun a b p' q' => Alike N p' q' ∧ p.GrowsTo p' ∧ q.GrowsTo q' ∧ R a b p' q') (m p) (m' q)

namespace Together

variable {m : Build α} {m' : Build β} {R S : α → β → Program → Program → Prop}

theorem pure {a : α} {b : β} (h : R a b p q) : Together N p q (Pure.pure a) (Pure.pure b) R :=
  fun hpq => .ok ⟨hpq, .refl p, .refl q, h⟩

theorem throw {e e' : LoadError} :
    Together N p q (MonadExcept.throw e : Build α) (MonadExcept.throw e' : Build β) R := fun _ => .error

/-- Two pairs of steps lead to alike programs if the first steps do and the second do behind them. -/
theorem bind {S : α' → β' → Program → Program → Prop} {f : α → Build α'} {g : β → Build β'}
    (h : Together N p q m m' R)
    (hfg : ∀ a b p' q', p.GrowsTo p' → q.GrowsTo q' → R a b p' q' → Together N p' q' (f a) (g b) S) :
    Together N p q (m >>= f) (m' >>= g) S := fun hpq =>
  (h hpq).bind fun a b p' q' ⟨hpq', hp, hq, hR⟩ =>
    (hfg a b p' q' hp hq hR hpq').imp fun _ _ _ _ ⟨hpq'', hp', hq', hS⟩ => ⟨hpq'', hp.trans hp', hq.trans hq', hS⟩

/-- A step that reads the program before it. -/
theorem get {f : Program → Build α} {g : Program → Build β} (h : Alike N p q → Together N p q (f p) (g q) R) :
    Together N p q (MonadState.get >>= f) (MonadState.get >>= g) R := fun hpq => h hpq hpq

theorem mapM {γ : Type} {f g : γ → Build α} {l : List γ}
    (h : ∀ c ∈ l, ∀ p q, Together N p q (f c) (g c) fun a b _ _ => a = b) (p q : Program) :
    Together N p q (l.mapM f) (l.mapM g) fun as bs _ _ => as = bs := by
  induction l generalizing p q with
  | nil => exact pure rfl
  | cons c l ih =>
    rw [List.mapM_cons, List.mapM_cons]
    refine bind (h c (by simp) p q) fun a b p' q' _ _ hab => ?_
    refine bind (ih (fun d hd => h d (by simp [hd])) p' q') fun as bs _ _ _ _ habs => ?_
    exact pure (by rw [hab, habs])

theorem forM {γ : Type} {f g : γ → Build PUnit} {l : List γ}
    (h : ∀ c ∈ l, ∀ p q, Together N p q (f c) (g c) fun _ _ _ _ => True) (p q : Program) :
    Together N p q (l.forM f) (l.forM g) fun _ _ _ _ => True := by
  induction l generalizing p q with
  | nil => exact pure trivial
  | cons c l ih =>
    exact bind (h c (by simp) p q) fun _ _ p' q' _ _ _ => ih (fun d hd => h d (by simp [hd])) p' q'

end Together

/-! ### Files and positions -/

private theorem modify_append {f : α → α} {as bs : List α} {i : Nat} (h : i < as.length) :
    (as ++ bs).modify i f = as.modify i f ++ bs := by
  induction as generalizing i with
  | nil => simp at h
  | cons a as ih =>
    cases i with
    | zero => rfl
    | succ i => simp [ih (Nat.lt_of_succ_lt_succ h)]

/-- A file that both programs share has the same number in both. -/
theorem together_file {name : String} (hname : name ∈ N.shared) :
    Together N p q (file name) (file name) fun a b _ _ => a = b ∧ a < N.shared.length := by
  intro hpq
  obtain ⟨fs, hnames, hp, hq⟩ := hpq.files
  obtain ⟨f, hf, hfname⟩ := List.mem_map.1 (hnames ▸ hname)
  obtain ⟨id, hid⟩ : ∃ id, fs.findIdx? (·.name == name) = some id := by
    refine Option.isSome_iff_exists.1 ?_
    rw [List.findIdx?_isSome, List.any_eq_true]
    exact ⟨f, hf, by simp [hfname]⟩
  have hlt : id < N.shared.length := by
    rw [← hnames, List.length_map]
    exact (List.findIdx?_eq_some_iff_getElem.1 hid).1
  -- the search ends among the shared files, whatever files come after them
  have hfile : ∀ r : Program, ∀ more, r.files.toList = fs ++ more → file name r = .ok id r := by
    intro r more hfiles
    have harray : r.files = (fs ++ more).toArray := by rw [← hfiles]
    have hfind : r.files.findIdx? (·.name == name) = some id := by
      rw [harray, List.findIdx?_toArray, List.findIdx?_append, hid]
      rfl
    show EStateM.Result.ok _ _ = _
    simp only [hfind]
  rw [hfile p _ hp, hfile q _ hq]
  exact .ok ⟨hpq, .refl p, .refl q, rfl, hlt⟩

/-- A position in a file that both programs share is the same in both. -/
theorem together_position (text : String) {inherited : FileId} (hinherited : inherited < N.shared.length)
    (htext : (Mention.place text).Listed N.shared) :
    Together N p q (position text (some inherited)) (position text (some inherited))
      fun a b _ _ => a = b ∧ a.file < N.shared.length := by
  unfold position
  cases hparse : WrittenPos.parse? text with
  | none => exact Together.throw
  | some w =>
    obtain ⟨_ | name, line, col⟩ := w
    · exact Together.pure ⟨rfl, hinherited⟩
    · refine Together.bind (together_file (htext name (by simp [hparse]))) fun a b _ _ _ _ hab => ?_
      exact Together.pure ⟨by rw [hab.1], hab.2⟩

theorem together_pushDecl {id : FileId} (hid : id < N.shared.length) (n : NodeId) :
    Together N p q (pushDecl id n) (pushDecl id n) fun _ _ _ _ => True := by
  intro hpq
  obtain ⟨fs, hnames, hp, hq⟩ := hpq.files
  let push (f : SourceFile) : SourceFile := { f with decls := f.decls ++ [n] }
  have hlt : id < fs.length := by rwa [← hnames, List.length_map] at hid
  have hmodify : ∀ r : Program, ∀ more, r.files.toList = fs ++ more →
      (r.files.modify id push).toList = fs.modify id push ++ more := by
    intro r more hfiles
    rw [Array.toList_modify, hfiles, modify_append hlt]
  have hgrow : ∀ r : Program, r.GrowsTo { r with files := r.files.modify id push } := fun r =>
    ⟨.refl _, fileNames_pushDecl r id n ▸ List.prefix_refl _, List.prefix_refl _⟩
  refine .ok ⟨hpq.grow (hgrow p) (hgrow q) rfl rfl ?_ hpq.types ?_, hgrow p, hgrow q, trivial⟩
  · exact ⟨fs.modify id push, (map_name_modify fs id n).trans hnames, hmodify p _ hp, hmodify q _ hq⟩
  · exact hpq.nodes.imp fun _ _ hd => hd.mono (hgrow p) (hgrow q)

/-! ### Types and symbols -/

/-- A step on the types alone. -/
theorem together_onTypes {m : Build α} {m' : Build β} {R : α → β → TypeTable → TypeTable → Prop}
    (h : p.types.Alike N.SamePlace q.types →
      RunTogether (fun a b p' q' => ∃ t u, p' = { p with types := t } ∧ q' = { q with types := u } ∧
        t.Alike N.SamePlace u ∧ p.types.GrowsTo t ∧ q.types.GrowsTo u ∧ R a b t u) (m p) (m' q)) :
    Together N p q m m' fun a b p' q' => R a b p'.types q'.types := by
  intro hpq
  refine (h hpq.types).imp ?_
  rintro a b _ _ ⟨t, u, rfl, rfl, htu, ht, hu, hR⟩
  have hp : p.GrowsTo { p with types := t } := ⟨ht, List.prefix_refl _, List.prefix_refl _⟩
  have hq : q.GrowsTo { q with types := u } := ⟨hu, List.prefix_refl _, List.prefix_refl _⟩
  exact ⟨hpq.grow hp hq rfl rfl hpq.files htu (hpq.nodes.imp fun _ _ hd => hd.mono hp hq), hp, hq, hR⟩

/-- A text is parsed to types of one shape, or to none in both. -/
theorem together_parseType (text : String) :
    Together N p q (parseType text) (parseType text) fun a b p' q' => p'.types.SameShape q'.types a b := by
  refine together_onTypes (R := fun a b t u => t.SameShape u a b) fun htypes => ?_
  have hread := htypes.resolve (.read text)
  unfold parseType TypeTable.parse
  revert hread
  generalize (TypeExpr.read text).resolve p.types = x, (TypeExpr.read text).resolve q.types = y
  rintro (h | _)
  · exact .ok ⟨_, _, rfl, rfl, h⟩
  · exact .error

theorem together_internBasic (name : String) :
    Together N p q (intern (.basic name)) (intern (.basic name)) fun a b p' q' => p'.types.SameShape q'.types a b := by
  refine together_onTypes (R := fun a b t u => t.SameShape u a b) fun htypes => ?_
  cases htypes.resolve (.basic name) with
  | ok h => exact .ok ⟨_, _, rfl, rfl, h⟩

theorem together_internPointer {a b : TypeId} (h : SameType N p q a b) :
    Together N p q (intern (.pointer a)) (intern (.pointer b)) fun a b p' q' => SameType N p' q' a b :=
  together_onTypes (R := fun a b t u => TypeTable.SameType N.SamePlace t u a b) fun htypes =>
    .ok ⟨_, _, rfl, rfl, htypes.intern_pointer h⟩

theorem together_symbol (key : String) :
    Together N p q (symbol key) (symbol key) fun a b p' q' => p'.SameSymbol q' a b := by
  refine Together.get fun hpq => ?_
  have hkey := hpq.lookupObject? key
  revert hkey
  generalize p.lookupObject? key = x, q.lookupObject? key = y
  rintro (ho | _)
  · exact Together.pure ho
  · exact Together.throw

/-! ### Nodes -/

/-- Nodes that are the same get the same number. -/
theorem together_addNode {node node' : Node} {pos pos' : Pos} {type type' : Option TypeId}
    (hnode : SameSyntax p q node node') (hpos : pos = pos') (hfile : pos.file < N.shared.length)
    (htype : Option.Rel (SameType N p q) type type') :
    Together N p q (addNode node pos type) (addNode node' pos' type') fun a b _ _ => a = b := by
  intro hpq
  have hp := GrowsTo.of_nodes p (p.nodes.push ⟨node, pos, type⟩)
  have hq := GrowsTo.of_nodes q (q.nodes.push ⟨node', pos', type'⟩)
  have hsize : p.nodes.size = q.nodes.size := by simpa using hpq.nodes.length_eq
  refine .ok ⟨hpq.grow hp hq rfl rfl hpq.files hpq.types ?_, hp, hq, hsize⟩
  rw [Array.toList_push, Array.toList_push]
  exact rel_append (hpq.nodes.imp fun _ _ hd => hd.mono hp hq) (.cons ⟨hnode.mono hp hq, hpos, hfile, htype⟩ .nil)

private theorem forall₂_modify {R : α → β → Prop} {f : α → α} {g : β → β} {as : List α} {bs : List β}
    (h : List.Forall₂ R as bs) (hfg : ∀ a b, R a b → R (f a) (g b)) (i : Nat) :
    List.Forall₂ R (as.modify i f) (bs.modify i g) := by
  induction h generalizing i with
  | nil => cases i <;> exact .nil
  | cons hab h ih =>
    cases i with
    | zero => exact .cons (hfg _ _ hab) h
    | succ i => exact .cons hab (ih i)

theorem together_setType {a b : TypeId} (h : p.types.SameShape q.types a b) (n : NodeId) :
    Together N p q (setType n a) (setType n b) fun _ _ _ _ => True := by
  intro hpq
  have hp := GrowsTo.of_nodes p (p.nodes.modify n fun d => { d with type := some a })
  have hq := GrowsTo.of_nodes q (q.nodes.modify n fun d => { d with type := some b })
  refine .ok ⟨hpq.grow hp hq rfl rfl hpq.files hpq.types ?_, hp, hq, trivial⟩
  rw [Array.toList_modify, Array.toList_modify]
  refine forall₂_modify (hpq.nodes.imp fun _ _ hd => hd.mono hp hq) (fun d d' hd => ?_) n
  exact ⟨hd.node, hd.pos, hd.file, .some h.sameType⟩

/-- A node may be given the same type in both programs. -/
theorem together_withType {m m' : Build NodeId} (h : Together N p q m m' fun a b _ _ => a = b) (type : Option String) :
    Together N p q (m >>= fun n => withType n type) (m' >>= fun n => withType n type) fun a b _ _ => a = b := by
  refine h.bind ?_
  rintro n _ p q - - rfl
  cases type with
  | none => exact Together.pure rfl
  | some text =>
    refine (together_parseType text).bind fun a b p q _ _ hab => ?_
    exact (together_setType hab n).bind fun _ _ _ _ _ _ _ => Together.pure rfl

theorem together_ident (name : String) {o o' : Option ObjId} (ho : Option.Rel (p.SameSymbol q) o o') (isDef : Bool)
    {pos : Pos} (hfile : pos.file < N.shared.length) :
    Together N p q (ident name o isDef pos) (ident name o' isDef pos) fun a b _ _ => a = b :=
  Together.get fun hpq =>
    together_addNode (.ident name ho isDef) rfl hfile (rel_bind ho fun _ _ ho => hpq.objectType? ho)

section

variable (hN : 0 < N.shared.length)

include hN

/-- What a selector selects has types of one shape, as its base has. -/
theorem together_selector (x sel : NodeId) :
    Together N p q (selector x sel) (selector x sel) fun a b _ _ => a = b := by
  refine Together.get fun hpq => together_addNode (.other (by simp)) (hpq.pos x) (hpq.file_lt hN x) ?_
  have hselection : Option.Rel (SameType N p q) (selectionType? p x sel) (selectionType? q x sel) := by
    have hsel := hpq.node? sel
    unfold selectionType?
    revert hsel
    generalize p.node? sel = d, q.node? sel = d'
    rintro (hd | _)
    · cases hd with
      | ident name =>
        exact rel_bind (hpq.type? x) fun a b hab => rel_imp (hpq.types.selectField? name hab) fun _ _ h => h.sameType
      | other hnode =>
        rename_i node
        cases node with
        | ident name o isDef => exact absurd rfl (hnode name o isDef)
        | _ => exact .none
    · exact .none
  simpa using rel_or (hpq.type? sel) hselection

theorem together_call (callee : NodeId) (args : List NodeId) (spread : Bool) :
    Together N p q (call callee args spread) (call callee args spread) fun a b _ _ => a = b := by
  refine Together.get fun hpq => together_addNode (.other (by simp)) (hpq.pos callee) (hpq.file_lt hN callee) ?_
  refine rel_bind (rel_bind (hpq.type? callee) fun a b hab => hpq.types.signature? hab) fun sig sig' hsig => ?_
  exact rel_imp hsig.singleResult? fun _ _ h => h.sameType

theorem together_keyValue (key value : NodeId) :
    Together N p q (keyValue key value) (keyValue key value) fun a b _ _ => a = b :=
  Together.get fun hpq => together_addNode (.other (by simp)) (hpq.pos key) (hpq.file_lt hN key) .none

omit hN in
/-- The position of the first of some nodes is the same in both programs. -/
theorem firstPos_eq (hpq : Alike N p q) (nodes : List NodeId) : firstPos p nodes = firstPos q nodes := by
  cases nodes with
  | nil => rfl
  | cons n nodes => exact hpq.pos n

theorem firstPos_file (hpq : Alike N p q) (nodes : List NodeId) : (firstPos p nodes).file < N.shared.length := by
  cases nodes with
  | nil => exact hN
  | cons n nodes => exact hpq.file_lt hN n

theorem together_assign (lhs rhs : List NodeId) (define : Bool) :
    Together N p q (assign lhs rhs define) (assign lhs rhs define) fun a b _ _ => a = b :=
  Together.get fun hpq => together_addNode (.other (by simp)) (firstPos_eq hpq _) (firstPos_file hN hpq _) .none

theorem together_valueDecl (names values : List NodeId) :
    Together N p q (valueDecl names values) (valueDecl names values) fun a b _ _ => a = b :=
  Together.get fun hpq => together_addNode (.other (by simp)) (firstPos_eq hpq _) (firstPos_file hN hpq _) .none

end

theorem together_unaryType (op : String) {a b : TypeId} (h : SameType N p q a b) :
    Together N p q (unaryType op a) (unaryType op b) fun x y p' q' => Option.Rel (SameType N p' q') x y := by
  unfold unaryType
  split
  · exact (together_internPointer h).bind fun c d _ _ _ _ hcd => Together.pure (.some hcd)
  · split
    · refine Together.get fun hpq => ?_
      obtain ⟨ty, ty', ha, hb, hentry⟩ := hpq.types.exists_entry h
      simp only [ha, hb]
      cases hentry with
      | pointer h => exact Together.pure (.some h)
      | _ => exact Together.pure .none
    · exact Together.pure (.some h)

theorem together_unary (op : String) (x : NodeId) {pos : Pos} (hfile : pos.file < N.shared.length) :
    Together N p q (unary op x pos) (unary op x pos) fun a b _ _ => a = b := by
  unfold unary
  refine Together.get fun hpq => ?_
  have hx := hpq.type? x
  revert hx
  generalize p.type? x = a, q.type? x = b
  rintro (hab | _)
  · exact (together_unaryType op hab).bind fun _ _ _ _ _ _ htype => together_addNode (.other (by simp)) rfl hfile htype
  · exact together_addNode (.other (by simp)) rfl hfile .none

/-! ### Trees -/

theorem together_identNode {file : FileId} (hfile : file < N.shared.length) (i : IdentDump) (isDef : Bool)
    (hi : ∀ x ∈ i.mentions, x.Listed N.shared) (p q : Program) :
    Together N p q (identNode file i isDef) (identNode file i isDef) fun a b _ _ => a = b := by
  have hplace : (Mention.place i.pos).Listed N.shared := hi _ (by simp [IdentDump.mentions])
  have hobj : Together N p q (i.obj.mapM symbol) (i.obj.mapM symbol)
      fun o o' p' q' => Option.Rel (p'.SameSymbol q') o o' := by
    cases i.obj with
    | none => exact Together.pure .none
    | some key => exact (together_symbol key).bind fun a b _ _ _ _ hab => Together.pure (.some hab)
  refine hobj.bind fun o o' p q _ _ ho => (together_position i.pos hfile hplace).bind ?_
  rintro pos _ p' q' hp hq ⟨rfl, hpos⟩
  exact together_withType (together_ident i.name (rel_imp ho fun _ _ ho => ho.mono hp hq) isDef hpos) i.type

/-- A node at a position that is written for it. -/
private theorem together_place {file : FileId} (hfile : file < N.shared.length) {pos : String}
    (hpos : (Mention.place pos).Listed N.shared)
    {f g : Pos → Build NodeId}
    (h : ∀ pos : Pos, pos.file < N.shared.length → ∀ p' q', p.GrowsTo p' → q.GrowsTo q' →
      Together N p' q' (f pos) (g pos) fun a b _ _ => a = b) :
    Together N p q (position pos (some file) >>= f) (position pos (some file) >>= g) fun a b _ _ => a = b := by
  refine (together_position pos hfile hpos).bind ?_
  rintro pos _ p' q' hp hq ⟨rfl, hpos⟩
  exact h pos hpos p' q' hp hq

mutual

/-- A tree is added alike to two programs that are alike. -/
theorem together_tree {file : FileId} (hfile : file < N.shared.length) : ∀ (node : NodeDump),
    (∀ x ∈ node.mentions, x.Listed N.shared) → ∀ p q,
      Together N p q (tree file node) (tree file node) fun a b _ _ => a = b
  | .ident i, h, p, q => by
    rw [NodeDump.mentions] at h
    rw [tree]
    exact together_identNode hfile i _ h p q
  | .selector x sel type, h, p, q => by
    rw [NodeDump.mentions, List.forall_mem_append, List.forall_mem_append] at h
    rw [tree]
    refine (together_tree hfile x h.1 p q).bind ?_
    rintro x _ p q - - rfl
    refine (together_identNode hfile sel _ h.2.1 p q).bind ?_
    rintro sel _ p q - - rfl
    exact together_withType (together_selector (Nat.zero_lt_of_lt hfile) x sel) type
  | .call callee args spread type, h, p, q => by
    rw [NodeDump.mentions, List.forall_mem_append, List.forall_mem_append] at h
    rw [tree]
    refine (together_tree hfile callee h.1 p q).bind ?_
    rintro callee _ p q - - rfl
    refine (together_trees hfile args h.2.1 p q).bind ?_
    rintro args _ p q - - rfl
    exact together_withType (together_call (Nat.zero_lt_of_lt hfile) callee args spread) type
  | .composite type elts pos, h, p, q => by
    rw [NodeDump.mentions, List.forall_mem_cons, List.forall_mem_append] at h
    rw [tree]
    refine (together_parseType type).bind fun a b p q _ _ hab => ?_
    refine (together_trees hfile elts h.2.1 p q).bind ?_
    rintro elts _ p' q' hp hq rfl
    refine together_place hfile (h.2.2 _ (by simp)) fun pos hpos p'' q'' hp' hq' => ?_
    -- the type was read before the elements, and the tables have grown since
    have htype : SameType N p'' q'' a b := .plain ((hab.mono hp.types hq.types).mono hp'.types hq'.types)
    exact together_addNode (.other (by simp)) rfl hpos (.some htype)
  | .keyValue key value, h, p, q => by
    rw [NodeDump.mentions, List.forall_mem_append] at h
    rw [tree]
    refine (together_tree hfile key h.1 p q).bind ?_
    rintro key _ p q - - rfl
    refine (together_tree hfile value h.2 p q).bind ?_
    rintro value _ p q - - rfl
    exact together_keyValue (Nat.zero_lt_of_lt hfile) key value
  | .literal kind raw pos, h, p, q => by
    rw [NodeDump.mentions] at h
    rw [tree]
    refine together_place hfile (h _ (by simp)) fun pos hpos p q _ _ => ?_
    refine (together_internBasic (literalType kind)).bind fun a b p q _ _ hab => ?_
    exact together_addNode (.other (by simp)) rfl hpos (.some hab.sameType)
  | .unary op x pos, h, p, q => by
    rw [NodeDump.mentions, List.forall_mem_append] at h
    rw [tree]
    refine (together_tree hfile x h.1 p q).bind ?_
    rintro x _ p q - - rfl
    exact together_place hfile (h.2 _ (by simp)) fun pos hpos p q _ _ => together_unary op x hpos
  | .block stmts pos, h, p, q => by
    rw [NodeDump.mentions, List.forall_mem_append] at h
    rw [tree]
    refine (together_trees hfile stmts h.1 p q).bind ?_
    rintro stmts _ p q - - rfl
    exact together_place hfile (h.2 _ (by simp)) fun pos hpos p q _ _ =>
      together_addNode (.other (by simp)) rfl hpos .none
  | .assign lhs rhs define, h, p, q => by
    rw [NodeDump.mentions, List.forall_mem_append] at h
    rw [tree]
    refine (together_trees hfile lhs h.1 p q).bind ?_
    rintro lhs _ p q - - rfl
    refine (together_trees hfile rhs h.2 p q).bind ?_
    rintro rhs _ p q - - rfl
    exact together_assign (Nat.zero_lt_of_lt hfile) lhs rhs define
  | .valueDecl names values, h, p, q => by
    rw [NodeDump.mentions, List.forall_mem_append] at h
    rw [tree]
    refine (Together.mapM (fun i hi p q => together_identNode hfile i true ?_ p q) p q).bind ?_
    · exact fun x hx => h.1 x (List.mem_flatMap_of_mem hi hx)
    rintro names _ p q - - rfl
    refine (together_trees hfile values h.2 p q).bind ?_
    rintro values _ p q - - rfl
    exact together_valueDecl (Nat.zero_lt_of_lt hfile) names values
  | .other label children pos, h, p, q => by
    rw [NodeDump.mentions, List.forall_mem_append] at h
    rw [tree]
    refine (together_trees hfile children h.1 p q).bind ?_
    rintro children _ p q - - rfl
    exact together_place hfile (h.2 _ (by simp)) fun pos hpos p q _ _ =>
      together_addNode (.other (by simp)) rfl hpos .none

/-- Trees get the same numbers, as each of them does. -/
theorem together_trees {file : FileId} (hfile : file < N.shared.length) : ∀ (nodes : List NodeDump),
    (∀ x ∈ NodeDump.mentionsOf nodes, x.Listed N.shared) → ∀ p q,
      Together N p q (trees file nodes) (trees file nodes) fun as bs _ _ => as = bs
  | [], _, p, q => by
    rw [trees]
    exact Together.pure rfl
  | node :: rest, h, p, q => by
    rw [NodeDump.mentionsOf, List.forall_mem_append] at h
    rw [trees]
    refine (together_tree hfile node h.1 p q).bind ?_
    rintro n _ p q - - rfl
    refine (together_trees hfile rest h.2 p q).bind ?_
    rintro ns _ p q - - rfl
    exact Together.pure rfl

end

theorem together_declsOf (f : FileDump) (hname : f.name ∈ N.shared) (h : ∀ x ∈ f.mentions, x.Listed N.shared)
    (p q : Program) : Together N p q (declsOf f) (declsOf f) fun _ _ _ _ => True := by
  refine (together_file hname).bind ?_
  rintro id _ p q - - ⟨rfl, hid⟩
  refine Together.forM (fun decl hdecl p q => ?_) p q
  refine (together_tree hid decl (fun x hx => h x (List.mem_flatMap_of_mem hdecl hx)) p q).bind ?_
  rintro n _ p q - - rfl
  exact together_pushDecl hid n

/-- The syntax of some files, all of which are shared, is added alike to two programs that are alike. -/
theorem together_filesOf {fs : List FileDump} (hnames : ∀ f ∈ fs, f.name ∈ N.shared)
    (h : ∀ f ∈ fs, ∀ x ∈ f.mentions, x.Listed N.shared) (p q : Program) :
    Together N p q (fs.forM declsOf) (fs.forM declsOf) fun _ _ _ _ => True :=
  Together.forM (fun f hf p q => together_declsOf f (hnames f hf) (h f hf) p q) p q

end Build

end FluentChain
