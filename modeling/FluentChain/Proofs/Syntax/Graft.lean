import FluentChain.Proofs.Syntax.ReadBack

/-!
# Adding trees

A tree that is added to a program can be read back, and its nodes come one after another behind those that there
were, children first (`grafts_tree`).  Adding it takes nothing from the program, and gives declarations to no file.
-/

namespace FluentChain

/-! ### Nodes in their order -/

namespace Program

variable {p q r : Program} {first : Nat} {ns ms : List NodeId}

theorem range'_append_range' {a b c : Nat} (hab : a ≤ b) (hbc : b ≤ c) :
    List.range' a (b - a) ++ List.range' b (c - b) = List.range' a (c - a) :=
  calc List.range' a (b - a) ++ List.range' b (c - b)
      = List.range' a (b - a) ++ List.range' (a + (b - a)) (c - b) := by rw [Nat.add_sub_cancel' hab]
    _ = List.range' a (b - a + (c - b)) := List.range'_append_1
    _ = List.range' a (c - a) := by congr 1; omega

/-- Where children come before their parent, its subtree is theirs with the parent at the end. -/
theorem subtree_of_lt {n : NodeId} (h : ∀ c ∈ p.children n, c < n) :
    p.subtree n = (p.children n).flatMap p.subtree ++ [n] := by
  rw [subtree, ← subnodes_map_val h, List.flatMap_map]

theorem retains_push (p : Program) (d : NodeData) : p.Retains { p with nodes := p.nodes.push d } where
  files := List.prefix_refl _
  objects := rfl
  nodes := by simp [placedNodes]

/-- The subtrees of the nodes `ns`, one after another, are the nodes from `first` on. -/
structure Spans (p : Program) (first : Nat) (ns : List NodeId) : Prop where
  le : first ≤ p.nodes.size
  lt_size : ∀ n ∈ ns, n < p.nodes.size
  subtrees : ns.flatMap p.subtree = List.range' first (p.nodes.size - first)

theorem Spans.nil (p : Program) : p.Spans p.nodes.size [] := ⟨Nat.le_refl _, by simp, by simp⟩

theorem Spans.append (h : p.Spans first ns) (hq : p.Retains q) (h' : q.Spans p.nodes.size ms) :
    q.Spans first (ns ++ ms) where
  le := Nat.le_trans h.le hq.size_le
  lt_size := List.forall_mem_append.2 ⟨fun n hn => Nat.lt_of_lt_of_le (h.lt_size n hn) hq.size_le, h'.lt_size⟩
  subtrees := by
    have hold : ns.flatMap q.subtree = ns.flatMap p.subtree :=
      List.flatMap_congr fun n hn => hq.subtree_eq (h.lt_size n hn)
    rw [List.flatMap_append, hold, h.subtrees, h'.subtrees, range'_append_range' h.le hq.size_le]

/-- Steps that add no nodes. -/
theorem Spans.mono (h : p.Spans first ns) (hq : p.Retains q) (hsize : q.nodes.size = p.nodes.size) :
    q.Spans first ns := by
  have hnil : q.Spans p.nodes.size [] := hsize ▸ .nil q
  simpa using h.append hq hnil

/-- A new node comes behind its children. -/
theorem Spans.push {node : Node} (h : p.Spans first node.children) (pos : Pos) (type : Option TypeId) :
    ({ p with nodes := p.nodes.push ⟨node, pos, type⟩ } : Program).Spans first [p.nodes.size] := by
  have hq := retains_push p ⟨node, pos, type⟩
  have hsize : ({ p with nodes := p.nodes.push ⟨node, pos, type⟩ } : Program).nodes.size = p.nodes.size + 1 := by simp
  have hnode : ({ p with nodes := p.nodes.push ⟨node, pos, type⟩ } : Program).node? p.nodes.size = some node := by
    simp [node?]
  generalize ({ p with nodes := p.nodes.push ⟨node, pos, type⟩ } : Program) = q at *
  have hchildren : q.children p.nodes.size = node.children := children_of_node? hnode
  have hold : node.children.flatMap q.subtree = List.range' first (p.nodes.size - first) := by
    rw [← h.subtrees]
    exact List.flatMap_congr fun n hn => hq.subtree_eq (h.lt_size n hn)
  refine ⟨Nat.le_trans h.le hq.size_le, by simp [hsize], ?_⟩
  rw [List.flatMap_singleton, subtree_of_lt (hchildren ▸ h.lt_size), hchildren, hold, hsize,
    Nat.sub_add_comm h.le, List.range'_1_concat, Nat.add_sub_cancel' h.le]

/-- The program `q` has all of `p`, and behind it nodes and files without declarations. -/
structure Gains (p q : Program) : Prop extends p.Retains q where
  fresh : ∀ f ∈ q.files.toList, f ∈ p.files.toList ∨ f.decls = [] ∧ f.name ∉ p.fileNames
  nodup : p.fileNames.Nodup → q.fileNames.Nodup

theorem Gains.refl (p : Program) : p.Gains p := ⟨.refl p, fun _ hf => Or.inl hf, id⟩

theorem Gains.trans (h : p.Gains q) (h' : q.Gains r) : p.Gains r where
  toRetains := h.toRetains.trans h'.toRetains
  fresh f hf := by
    rcases h'.fresh f hf with hq | ⟨hempty, hnew⟩
    · exact h.fresh f hq
    · exact Or.inr ⟨hempty, fun hp => hnew (h.files.subset hp)⟩
  nodup := h'.nodup ∘ h.nodup

/-- A step that does not touch the files. -/
theorem Gains.of_files (h : p.Retains q) (hfiles : q.files = p.files) : p.Gains q where
  toRetains := h
  fresh _ hf := Or.inl (hfiles ▸ hf)
  nodup hp := by rwa [fileNames, hfiles]

/-- In `q`, the new node `n` is on top of nodes that are in `p`. -/
structure Tops (p : Program) (node : Node) (pos : Pos) (n : NodeId) (q : Program) : Prop where
  node_eq : q.node? n = some node
  pos_eq : q.pos n = pos
  spans : ∀ {first : Nat}, p.Spans first node.children → q.Spans first [n]

namespace Tops

variable {node : Node} {pos : Pos} {n : NodeId}

/-- Nothing is lost by steps that add no nodes, be they before the new node or after it. -/
theorem of_before (h : q.Tops node pos n r) (hq : p.Retains q) (hsize : q.nodes.size = p.nodes.size) :
    p.Tops node pos n r :=
  ⟨h.node_eq, h.pos_eq, fun hspans => h.spans (hspans.mono hq hsize)⟩

theorem of_after (h : p.Tops node pos n q) (hr : q.Retains r) (hsize : r.nodes.size = q.nodes.size) :
    p.Tops node pos n r where
  node_eq := (hr.node?_eq (lt_size_of_node? h.node_eq)).trans h.node_eq
  pos_eq := (hr.pos_eq (lt_size_of_node? h.node_eq)).trans h.pos_eq
  spans hspans := (h.spans hspans).mono hr hsize

theorem standsFirst (h : p.Tops node (Build.firstPos p node.children) n q) (hq : p.Retains q)
    (hlt : ∀ c ∈ node.children, c < p.nodes.size) : q.StandsFirst n := by
  rw [StandsFirst, h.pos_eq, Build.firstPos, children_of_node? h.node_eq]
  cases hcs : node.children with
  | nil => rfl
  | cons c cs =>
    have hc : c < p.nodes.size := hlt c (hcs ▸ List.mem_cons_self)
    rw [List.head?_cons, Option.map_some, Option.map_some, hq.pos_eq hc]
    rfl

/-- A node that is put where its first child is. -/
theorem atFirst {start : Nat} (h : p.Tops node (Build.firstPos p node.children) n q) (hq : p.Retains q)
    (hspans : p.Spans start node.children) : q.node? n = some node ∧ q.StandsFirst n ∧ q.Spans start [n] :=
  ⟨h.node_eq, h.standsFirst hq hspans.lt_size, h.spans hspans⟩

end Tops

end Program

/-! ### Steps that add trees -/

namespace Build

variable {p q : Program} {α β : Type}

/-- From `p`, the step `m` only adds nodes and files, and what it returns satisfies `R`. -/
def Grafts (p : Program) (m : Build α) (R : α → Program → Prop) : Prop :=
  ∀ a q, m p = .ok a q → p.Gains q ∧ R a q

namespace Grafts

variable {m : Build α} {R S : α → Program → Prop}

theorem pure {a : α} (h : R a p) : Grafts p (Pure.pure a) R := by
  rintro _ _ ⟨⟩
  exact ⟨.refl p, h⟩

theorem throw {e : LoadError} : Grafts p (MonadExcept.throw e) R := nofun

theorem get_bind {f : Program → Build α} (h : Grafts p (f p) R) : Grafts p (get >>= f) R := h

theorem imp (h : Grafts p m R) (hS : ∀ a q, p.Gains q → R a q → S a q) : Grafts p m S := by
  intro a q hrun
  obtain ⟨hq, ha⟩ := h a q hrun
  exact ⟨hq, hS a q hq ha⟩

theorem bind {f : α → Build β} {S : β → Program → Prop} (hm : Grafts p m R)
    (hf : ∀ a q, p.Gains q → R a q → Grafts q (f a) S) : Grafts p (m >>= f) S := by
  intro b r hrun
  obtain ⟨a, q, hfirst, hrest⟩ := bind_eq_ok.1 hrun
  obtain ⟨hq, ha⟩ := hm a q hfirst
  obtain ⟨hr, hb⟩ := hf a q hq ha b r hrest
  exact ⟨hq.trans hr, hb⟩

end Grafts

theorem grafts_onTypes (step : TypeTable → α × TypeTable) :
    Grafts p (onTypes step) fun _ q => q.nodes.size = p.nodes.size := by
  rintro _ _ ⟨⟩
  exact ⟨.of_files ⟨List.prefix_refl _, rfl, List.prefix_refl _⟩ rfl, rfl⟩

theorem grafts_parseType (text : String) : Grafts p (parseType text) fun _ q => q.nodes.size = p.nodes.size := by
  intro id q hrun
  unfold parseType at hrun
  split at hrun
  · cases hrun
    exact ⟨.of_files ⟨List.prefix_refl _, rfl, List.prefix_refl _⟩ rfl, rfl⟩
  · cases hrun

theorem grafts_setType (n : NodeId) (type : TypeId) :
    Grafts p (setType n type) fun _ q => q.nodes.size = p.nodes.size := by
  rintro _ _ ⟨⟩
  have hplaced : Program.placedNodes
      { p with nodes := p.nodes.modify n fun d => { d with type := some type } } = p.placedNodes := by
    refine List.ext_getElem? fun i => ?_
    rw [Program.getElem?_placedNodes, Program.getElem?_placedNodes, Array.getElem?_modify]
    split
    · cases p.nodes[i]? <;> rfl
    · rfl
  exact ⟨.of_files ⟨List.prefix_refl _, rfl, hplaced ▸ List.prefix_refl _⟩ rfl, Array.size_modify⟩

theorem grafts_file (name : String) :
    Grafts p (file name) fun id q => q.nodes.size = p.nodes.size ∧ q.fileNames[id]? = some name := by
  intro id q hrun
  rcases run_file name p with ⟨id', hfile, hid⟩ | ⟨hnew, hfile⟩
  · cases hfile.symm.trans hrun
    exact ⟨.refl p, rfl, hid⟩
  · cases hfile.symm.trans hrun
    refine ⟨⟨⟨?_, rfl, List.prefix_refl _⟩, ?_, fun hp => nodup_fileNames_push hp hnew⟩, rfl, ?_⟩
    · rw [fileNames_push]
      exact List.prefix_append _ _
    · intro f hf
      rcases Array.mem_push.1 (Array.mem_toList_iff.1 hf) with hf | rfl
      · exact Or.inl (Array.mem_toList_iff.2 hf)
      · exact Or.inr ⟨rfl, hnew⟩
    · simp [Program.fileNames]

theorem grafts_position (text : String) (file : FileId) :
    Grafts p (position text (some file)) fun pos q => q.nodes.size = p.nodes.size ∧ q.PlacedBy file text pos := by
  unfold position
  cases hparse : WrittenPos.parse? text with
  | none => exact .throw
  | some w =>
    obtain ⟨_ | name, line, col⟩ := w
    · exact .pure ⟨rfl, Or.inr ⟨hparse, rfl⟩⟩
    · exact .bind (grafts_file name) fun id q _ hid => .pure ⟨hid.1, Or.inl ⟨name, hparse, hid.2⟩⟩

theorem grafts_symbol (key : String) : Grafts p (symbol key) fun o q => q = p ∧ p.lookupObject? key = some o := by
  refine .get_bind ?_
  split
  · rename_i o ho
    exact .pure ⟨rfl, ho⟩
  · exact .throw

theorem grafts_symbols (obj : Option String) :
    Grafts p (obj.mapM symbol) fun o q => q = p ∧ Option.Rel (fun key o => p.lookupObject? key = some o) obj o := by
  cases obj with
  | none => exact .pure ⟨rfl, .none⟩
  | some key => exact .bind (grafts_symbol key) fun o q _ ho => .pure ⟨ho.1, .some ho.2⟩

theorem grafts_withType (n : NodeId) (type : Option String) :
    Grafts p (withType n type) fun m q => m = n ∧ q.nodes.size = p.nodes.size := by
  cases type with
  | none => exact .pure ⟨rfl, rfl⟩
  | some text =>
    exact .bind (grafts_parseType text) fun id q _ hq => .bind (grafts_setType n id) fun _ r _ hr =>
      .pure ⟨rfl, hr.trans hq⟩

/-! ### Single nodes -/

theorem grafts_addNode (node : Node) (pos : Pos) (type : Option TypeId) :
    Grafts p (addNode node pos type) (p.Tops node pos) := by
  intro n q hrun
  cases hrun
  exact ⟨.of_files (p.retains_push _) rfl, by simp [Program.node?], by simp [Program.pos], fun h => h.push pos type⟩

/-- A step that adds no nodes comes before one that adds a node. -/
theorem Grafts.topsAfter {m : Build α} {f : α → Build NodeId} {node : Node} {pos : Pos}
    (hm : Grafts p m fun _ q => q.nodes.size = p.nodes.size)
    (hf : ∀ a q, Grafts q (f a) (q.Tops node pos)) : Grafts p (m >>= f) (p.Tops node pos) :=
  hm.bind fun a q hq hsize => (hf a q).imp fun _ _ _ h => h.of_before hq.toRetains hsize

theorem Grafts.withType {m : Build NodeId} {node : Node} {pos : Pos} (hm : Grafts p m (p.Tops node pos))
    (type : Option String) : Grafts p (m >>= fun n => withType n type) (p.Tops node pos) := by
  refine hm.bind fun n q _ hn => (grafts_withType n type).imp ?_
  rintro _ r hr ⟨rfl, hsize⟩
  exact hn.of_after hr.toRetains hsize

theorem grafts_literal (kind : LiteralKind) (raw : String) (pos : Pos) :
    Grafts p (literal kind raw pos) (p.Tops (.literal kind raw) pos) :=
  .topsAfter (grafts_onTypes _) fun _ _ => grafts_addNode _ _ _

theorem grafts_unaryType (op : String) (type : TypeId) :
    Grafts p (unaryType op type) fun _ q => q.nodes.size = p.nodes.size := by
  unfold unaryType
  split
  · exact .bind (grafts_onTypes _) fun _ _ _ hq => .pure hq
  · split
    · refine .get_bind ?_
      split <;> exact .pure rfl
    · exact .pure rfl

theorem grafts_unary (op : String) (x : NodeId) (pos : Pos) :
    Grafts p (unary op x pos) (p.Tops (.unary op x) pos) := by
  unfold unary
  refine .get_bind ?_
  split
  · exact .topsAfter (grafts_unaryType op _) fun type _ => grafts_addNode _ _ type
  · exact grafts_addNode _ _ none

/-! ### Trees -/

theorem grafts_identNode (file : FileId) (i : IdentDump) (isDef : Bool) :
    Grafts p (identNode file i isDef) fun n q => i.At q file isDef n ∧ q.Spans p.nodes.size [n] := by
  refine .bind (grafts_symbols i.obj) ?_
  rintro obj _ - ⟨rfl, hobj⟩
  refine .bind (grafts_position i.pos file) fun pos q hq ⟨hsize, hpos⟩ => ?_
  have hident : Grafts q (ident i.name obj isDef pos) (q.Tops (.ident i.name obj isDef) pos) :=
    .get_bind (grafts_addNode _ _ _)
  refine (hident.withType i.type).imp fun n r hr hn => ⟨⟨⟨obj, hn.node_eq, rel_imp hobj fun key o ho => ?_⟩, ?_⟩, ?_⟩
  · rw [Program.lookupObject?, (hq.trans hr).objects]
    exact ho
  · rw [hn.pos_eq]
    exact hpos.mono hr.files
  · exact hn.spans (hsize ▸ .nil q)

theorem grafts_identNodes (file : FileId) (is : List IdentDump) (p : Program) :
    Grafts p (is.mapM (identNode file · true)) fun ns q =>
      List.Forall₂ (IdentDump.At q file true) is ns ∧ q.Spans p.nodes.size ns := by
  induction is generalizing p with
  | nil => exact .pure ⟨.nil, .nil p⟩
  | cons i is ih =>
    rw [List.mapM_cons]
    refine .bind (grafts_identNode file i true) fun n q _ hn => .bind (ih q) fun ns r hr hns => .pure ?_
    exact ⟨.cons (hn.1.mono hr.toRetains) hns.1, hn.2.append hr.toRetains hns.2⟩

/-- A node with a list of trees below it, at a written position. -/
theorem grafts_list (node : List NodeId → Node) (hnode : ∀ ns, (node ns).children = ns) (file : FileId) (text : String)
    (type : Option TypeId) {ds : List NodeDump}
    (hds : Grafts p (trees file ds) fun ns q => NodeDump.AllAt q file ds ns ∧ q.Spans p.nodes.size ns) :
    Grafts p (do
        let ns ← trees file ds
        addNode (node ns) (← position text (some file)) type)
      fun n q => (∃ ns, q.node? n = some (node ns) ∧ q.PlacedBy file text (q.pos n) ∧ NodeDump.AllAt q file ds ns) ∧
        q.Spans p.nodes.size [n] := by
  refine .bind hds fun ns q _ hns => .bind (grafts_position text file) fun pos r hr hpos => ?_
  refine (grafts_addNode _ _ _).imp fun n s hs hn => ⟨⟨ns, hn.node_eq, ?_, hns.1.mono (hr.trans hs).toRetains⟩, ?_⟩
  · rw [hn.pos_eq]
    exact hpos.2.mono hs.files
  · exact hn.spans ((hnode ns).symm ▸ hns.2.mono hr.toRetains hpos.1)

mutual

/-- A tree that was added can be read off the program, and its nodes come one after another. -/
theorem grafts_tree (file : FileId) : ∀ (d : NodeDump) (p : Program),
    Grafts p (tree file d) fun n q => d.At q file n ∧ q.Spans p.nodes.size [n]
  | .ident i, p => by
    rw [tree]
    refine (grafts_identNode file i i.isDef).imp fun n q _ hn => ?_
    rwa [NodeDump.At]
  | .selector x sel type, p => by
    rw [tree]
    refine .bind (grafts_tree file x p) fun x' q _ hx => .bind (grafts_identNode file sel _) fun sel' r hr hsel => ?_
    have hselector : Grafts r (selector x' sel') (r.Tops (.selector x' sel') (firstPos r [x', sel'])) :=
      .get_bind (grafts_addNode _ _ _)
    refine (hselector.withType type).imp fun n s hs hn => ?_
    -- here and below the parts are added one by one, and what is read off the first outlasts what is added after it
    obtain ⟨hnode, hfirst, hroot⟩ := hn.atFirst hs.toRetains (hx.2.append hr.toRetains hsel.2)
    have hbefore := hx.1.mono (hr.trans hs).toRetains
    rw [NodeDump.At]
    exact ⟨⟨x', sel', hnode, hfirst, hbefore, hsel.1.mono hs.toRetains⟩, hroot⟩
  | .call callee args spread type, p => by
    rw [tree]
    refine .bind (grafts_tree file callee p) fun callee' q _ hcallee => .bind (grafts_trees file args q)
      fun args' r hr hargs => ?_
    have hcall : Grafts r (call callee' args' spread)
        (r.Tops (.call callee' args' spread) (firstPos r (callee' :: args'))) :=
      .get_bind (grafts_addNode _ _ _)
    refine (hcall.withType type).imp fun n s hs hn => ?_
    obtain ⟨hnode, hfirst, hroot⟩ := hn.atFirst hs.toRetains (hcallee.2.append hr.toRetains hargs.2)
    have hbefore := hcallee.1.mono (hr.trans hs).toRetains
    rw [NodeDump.At]
    exact ⟨⟨callee', args', hnode, hfirst, hbefore, hargs.1.mono hs.toRetains⟩, hroot⟩
  | .composite type elts pos, p => by
    rw [tree]
    refine .bind (grafts_parseType type) fun type' q _ hsize =>
      (grafts_list .composite (fun _ => rfl) file pos (some type') (grafts_trees file elts q)).imp fun n r _ hn => ?_
    rw [NodeDump.At, ← hsize]
    exact hn
  | .keyValue key value, p => by
    rw [tree]
    refine .bind (grafts_tree file key p) fun key' q _ hkey => .bind (grafts_tree file value q)
      fun value' r hr hvalue => ?_
    have hpair : Grafts r (keyValue key' value') (r.Tops (.keyValue key' value') (firstPos r [key', value'])) :=
      .get_bind (grafts_addNode _ _ _)
    refine hpair.imp fun n s hs hn => ?_
    obtain ⟨hnode, hfirst, hroot⟩ := hn.atFirst hs.toRetains (hkey.2.append hr.toRetains hvalue.2)
    have hbefore := hkey.1.mono (hr.trans hs).toRetains
    rw [NodeDump.At]
    exact ⟨⟨key', value', hnode, hfirst, hbefore, hvalue.1.mono hs.toRetains⟩, hroot⟩
  | .literal kind raw pos, p => by
    rw [tree]
    refine .bind (grafts_position pos file) fun pos' q _ hpos => (grafts_literal kind raw pos').imp fun n r hr hn => ?_
    rw [NodeDump.At]
    exact ⟨⟨hn.node_eq, hn.pos_eq ▸ hpos.2.mono hr.files⟩, hn.spans (hpos.1 ▸ .nil q)⟩
  | .unary op x pos, p => by
    rw [tree]
    refine .bind (grafts_tree file x p) fun x' q _ hx => .bind (grafts_position pos file) fun pos' r hr hpos => ?_
    refine (grafts_unary op x' pos').imp fun n s hs hn => ?_
    rw [NodeDump.At]
    refine ⟨⟨x', hn.node_eq, ?_, hx.1.mono (hr.trans hs).toRetains⟩, hn.spans (hx.2.mono hr.toRetains hpos.1)⟩
    exact hn.pos_eq ▸ hpos.2.mono hs.files
  | .block stmts pos, p => by
    rw [tree]
    refine (grafts_list .block (fun _ => rfl) file pos none (grafts_trees file stmts p)).imp fun n q _ hn => ?_
    rwa [NodeDump.At]
  | .assign lhs rhs define, p => by
    rw [tree]
    refine .bind (grafts_trees file lhs p) fun lhs' q _ hlhs => .bind (grafts_trees file rhs q) fun rhs' r hr hrhs => ?_
    have hassign : Grafts r (assign lhs' rhs' define)
        (r.Tops (.assign lhs' rhs' define) (firstPos r (lhs' ++ rhs'))) :=
      .get_bind (grafts_addNode _ _ _)
    refine hassign.imp fun n s hs hn => ?_
    obtain ⟨hnode, hfirst, hroot⟩ := hn.atFirst hs.toRetains (hlhs.2.append hr.toRetains hrhs.2)
    have hbefore := hlhs.1.mono (hr.trans hs).toRetains
    rw [NodeDump.At]
    exact ⟨⟨lhs', rhs', hnode, hfirst, hbefore, hrhs.1.mono hs.toRetains⟩, hroot⟩
  | .valueDecl names values, p => by
    rw [tree]
    refine .bind (grafts_identNodes file names p) fun names' q _ hnames => .bind (grafts_trees file values q)
      fun values' r hr hvalues => ?_
    have hdecl : Grafts r (valueDecl names' values')
        (r.Tops (.valueDecl names' values') (firstPos r (names' ++ values'))) :=
      .get_bind (grafts_addNode _ _ _)
    refine hdecl.imp fun n s hs hn => ?_
    obtain ⟨hnode, hfirst, hroot⟩ := hn.atFirst hs.toRetains (hnames.2.append hr.toRetains hvalues.2)
    have hbefore := hnames.1.imp fun _ _ hi => hi.mono (hr.trans hs).toRetains
    rw [NodeDump.At]
    exact ⟨⟨names', values', hnode, hfirst, hbefore, hvalues.1.mono hs.toRetains⟩, hroot⟩
  | .other label children pos, p => by
    rw [tree]
    refine (grafts_list (.other label) (fun _ => rfl) file pos none (grafts_trees file children p)).imp
      fun n q _ hn => ?_
    rwa [NodeDump.At]

theorem grafts_trees (file : FileId) : ∀ (ds : List NodeDump) (p : Program),
    Grafts p (trees file ds) fun ns q => NodeDump.AllAt q file ds ns ∧ q.Spans p.nodes.size ns
  | [], p => by
    rw [trees]
    refine .pure ⟨?_, .nil p⟩
    rw [NodeDump.AllAt]
  | d :: ds, p => by
    rw [trees]
    refine .bind (grafts_tree file d p) fun n q _ hn => .bind (grafts_trees file ds q) fun ns r hr hns => .pure ?_
    rw [NodeDump.AllAt]
    exact ⟨⟨n, ns, rfl, hn.1.mono hr.toRetains, hns.1⟩, hn.2.append hr.toRetains hns.2⟩

end

end Build

end FluentChain
