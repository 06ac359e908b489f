import FluentChain.Proofs.Build.Typed
import FluentChain.Proofs.Syntax.Transcribed

/-!
# Types of dumped nodes

The nodes of a program are those of the dumps, one by one, and each has the type that its dump says, if it says one, or
else the type that is derived (`Program.types_of_ofDumps`).  All that a type is derived from is read from the finished
program, with the types and symbols that came after the node.
-/

namespace FluentChain

/-! ### The nodes of a tree -/

mutual

/-- The dumps of the nodes of a tree, children before their parent.  The name in a selector and the names of a value
declaration are nodes too. -/
def NodeDump.subtree : NodeDump → List NodeDump
  | .ident i => [.ident i]
  | .selector x sel type => x.subtree ++ ([.ident sel] ++ [.selector x sel type])
  | .call callee args spread type => callee.subtree ++ (NodeDump.subtrees args ++ [.call callee args spread type])
  | .composite type elts pos => NodeDump.subtrees elts ++ [.composite type elts pos]
  | .keyValue key value => key.subtree ++ (value.subtree ++ [.keyValue key value])
  | .literal kind raw pos => [.literal kind raw pos]
  | .unary op x pos => x.subtree ++ [.unary op x pos]
  | .block stmts pos => NodeDump.subtrees stmts ++ [.block stmts pos]
  | .assign lhs rhs define => NodeDump.subtrees lhs ++ (NodeDump.subtrees rhs ++ [.assign lhs rhs define])
  | .valueDecl names values =>
    names.map (fun i => .ident { i with isDef := true }) ++ (NodeDump.subtrees values ++ [.valueDecl names values])
  | .other label children pos => NodeDump.subtrees children ++ [.other label children pos]

/-- The dumps of the nodes of trees, one tree after another. -/
def NodeDump.subtrees : List NodeDump → List NodeDump
  | [] => []
  | d :: ds => d.subtree ++ NodeDump.subtrees ds

end

/-- The nodes of the declarations that files list. -/
def nodeEntries (fs : List FileDump) : List NodeDump := fs.flatMap fun f => f.decls.flatMap NodeDump.subtree

theorem nodeEntries_eq (fs : List FileDump) : nodeEntries fs = (declEntries fs).flatMap fun e => e.2.subtree := by
  rw [declEntries, List.flatMap_assoc]
  exact List.flatMap_congr fun f _ => by rw [List.flatMap_map]

/-! ### Adding them -/

namespace Build

open Program

variable {p : Program}

theorem appends_identNode (file : FileId) (i : IdentDump) (isDef : Bool) {d : NodeDump} (hd : d.writtenType? = i.type) :
    Appends p (identNode file i isDef) [d] fun n q => n < q.nodes.size := by
  refine .after (appends_symbols i.obj) fun obj q _ hobj => .after (appends_position i.pos file) fun pos r hr _ => ?_
  have hsymbol : ∀ o ∈ obj, o < r.objects.size := fun o ho => hr.object_lt (hobj o ho)
  rw [← hd]
  exact appends_withType rfl (safe_ident i.name isDef hsymbol (inRange_anywhere pos)) (by simp [Node.children]) hsymbol
    rfl

theorem appends_selector {x sel : NodeId} (hx : x < p.nodes.size) (hsel : sel < p.nodes.size) (d : NodeDump) :
    Appends p (selector x sel >>= fun n => withType n d.writtenType?) [d] fun n q => n < q.nodes.size :=
  appends_withType rfl (safe_selector hx hsel) (by simpa [Node.children] using ⟨hx, hsel⟩) (by simp [Node.symbol?])
    (by rw [DerivesType, selectionType?_eq])

theorem appends_call {callee : NodeId} {args : List NodeId} (spread : Bool) (hcallee : callee < p.nodes.size)
    (hargs : ∀ a ∈ args, a < p.nodes.size) (d : NodeDump) :
    Appends p (call callee args spread >>= fun n => withType n d.writtenType?) [d] fun n q => n < q.nodes.size :=
  appends_withType rfl (safe_call spread hcallee hargs) (by simpa [Node.children] using ⟨hcallee, hargs⟩)
    (by simp [Node.symbol?]) rfl

mutual

theorem appends_tree (file : FileId) : ∀ (d : NodeDump) (p : Program),
    Appends p (tree file d) d.subtree fun n q => n < q.nodes.size
  | .ident i, p => by
    rw [tree, NodeDump.subtree]
    exact appends_identNode file i i.isDef rfl
  | .selector x sel type, p => by
    rw [tree, NodeDump.subtree]
    refine .bind (appends_tree file x p) fun x' q _ hx => ?_
    refine .bind (appends_identNode file sel sel.isDef rfl) fun sel' r hr hsel => ?_
    exact appends_selector (hr.node_lt hx) hsel (.selector x sel type)
  | .call callee args spread type, p => by
    rw [tree, NodeDump.subtree]
    refine .bind (appends_tree file callee p) fun callee' q _ hcallee => ?_
    refine .bind (appends_trees file args q) fun args' r hr hargs => ?_
    exact appends_call spread (hr.node_lt hcallee) hargs (.call callee args spread type)
  | .composite type elts pos, p => by
    rw [tree, NodeDump.subtree]
    -- the type is read before the elements are added, and they may bring more types
    refine .after (appends_parseType type) fun id q _ hid => ?_
    refine .bind (appends_trees file elts q) fun elts' r hr helts => ?_
    refine .after (appends_position pos file) fun pos' s hs _ => ?_
    have hlater := hr.trans hs
    refine appends_composite pos' rfl ⟨hlater.type_lt hid.1, hid.2.mono hlater.growsTo⟩ ?_
    exact fun e he => hs.node_lt (helts e he)
  | .keyValue key value, p => by
    rw [tree, NodeDump.subtree]
    refine .bind (appends_tree file key p) fun key' q _ hkey => ?_
    refine .bind (appends_tree file value q) fun value' r hr hvalue => .get_bind ?_
    have hchildren : ∀ c ∈ (Node.keyValue key' value').children, c < r.nodes.size := by
      simpa [Node.children] using ⟨hr.node_lt hkey, hvalue⟩
    exact appends_untyped rfl (safe_keyValue (hr.node_lt hkey) hvalue) hchildren rfl rfl
  | .literal kind raw pos, p => by
    rw [tree, NodeDump.subtree]
    exact .after (appends_position pos file) fun pos' _ _ _ => appends_literal kind raw pos' rfl
  | .unary op x pos, p => by
    rw [tree, NodeDump.subtree]
    refine .bind (appends_tree file x p) fun x' q _ hx => ?_
    exact .after (appends_position pos file) fun pos' r hr _ => appends_unary op pos' rfl (hr.node_lt hx)
  | .block stmts pos, p => by
    rw [tree, NodeDump.subtree]
    refine .bind (appends_trees file stmts p) fun stmts' q _ hstmts => ?_
    refine .after (appends_position pos file) fun pos' r hr _ => ?_
    have hchildren : ∀ s ∈ stmts', s < r.nodes.size := fun s hs => hr.node_lt (hstmts s hs)
    exact appends_untyped rfl (safe_block hchildren (inRange_anywhere pos')) hchildren rfl rfl
  | .assign lhs rhs define, p => by
    rw [tree, NodeDump.subtree]
    refine .bind (appends_trees file lhs p) fun lhs' q _ hlhs => ?_
    refine .bind (appends_trees file rhs q) fun rhs' r hr hrhs => .get_bind ?_
    have hchildren : ∀ c ∈ lhs' ++ rhs', c < r.nodes.size :=
      List.forall_mem_append.2 ⟨fun c hc => hr.node_lt (hlhs c hc), hrhs⟩
    exact appends_untyped rfl (safe_assign define hchildren (inRange_anywhere _)) hchildren rfl rfl
  | .valueDecl names values, p => by
    rw [tree, NodeDump.subtree]
    have hnames : Appends p (names.mapM (identNode file · true)) (names.map fun i => .ident { i with isDef := true })
        fun ns q => ∀ n ∈ ns, n < q.nodes.size :=
      .mapM (S := fun n q => n < q.nodes.size) (fun _ _ _ hr hn => hr.node_lt hn) fun i q =>
        appends_identNode file i true rfl
    refine .bind hnames fun names' q _ hnames => ?_
    refine .bind (appends_trees file values q) fun values' r hr hvalues => .get_bind ?_
    have hchildren : ∀ c ∈ names' ++ values', c < r.nodes.size :=
      List.forall_mem_append.2 ⟨fun c hc => hr.node_lt (hnames c hc), hvalues⟩
    exact appends_untyped rfl (safe_valueDecl hchildren (inRange_anywhere _)) hchildren rfl rfl
  | .other label children pos, p => by
    rw [tree, NodeDump.subtree]
    refine .bind (appends_trees file children p) fun children' q _ hchildren => ?_
    refine .after (appends_position pos file) fun pos' r hr _ => ?_
    have hchildren' : ∀ c ∈ children', c < r.nodes.size := fun c hc => hr.node_lt (hchildren c hc)
    exact appends_untyped rfl (safe_other label hchildren' (inRange_anywhere pos')) hchildren' rfl rfl

theorem appends_trees (file : FileId) : ∀ (ds : List NodeDump) (p : Program),
    Appends p (trees file ds) (NodeDump.subtrees ds) fun ns q => ∀ n ∈ ns, n < q.nodes.size
  | [], p => by
    rw [trees, NodeDump.subtrees]
    exact .pure fun _ hn => absurd hn List.not_mem_nil
  | d :: ds, p => by
    rw [trees, NodeDump.subtrees, ← List.append_nil (NodeDump.subtrees ds)]
    refine .bind (appends_tree file d p) fun n q _ hn => .bind (appends_trees file ds q) fun ns r hr hns => ?_
    exact .pure (List.forall_mem_cons.2 ⟨hr.node_lt hn, hns⟩)

end

theorem appends_pushDecl (file : FileId) {n : NodeId} (hn : n < p.nodes.size) :
    Appends p (pushDecl file n) [] fun _ _ => True := by
  refine .of_safe (safe_pushDecl file hn) fun _ q _ _ _ hrun => ?_
  cases hrun
  exact ⟨⟨startOf_withFiles p _, .nil rfl⟩, trivial⟩

theorem appends_declsOf (f : FileDump) : Appends p (declsOf f) (f.decls.flatMap NodeDump.subtree) fun _ _ => True := by
  refine .after (appends_file f.name) fun id q _ _ => .forM fun d r => ?_
  rw [← List.append_nil d.subtree]
  exact .bind (appends_tree id d r) fun n s _ hn => appends_pushDecl id hn

end Build

/-! ### Reading them back -/

section

variable {p : Program} {file : FileId}

theorem Program.Ordered.forall₂_concat (hp : p.Ordered) {n : NodeId} {node : Node} (hnode : p.node? n = some node)
    {d : NodeDump} {ds : List NodeDump} (hd : d.At p file n)
    (hchildren : List.Forall₂ (NodeDump.At p file) ds (node.children.flatMap p.subtree)) :
    List.Forall₂ (NodeDump.At p file) (ds ++ [d]) (p.subtree n) := by
  rw [subtree_of_lt (hp n), children_of_node? hnode]
  exact List.rel_append hchildren (.cons hd .nil)

theorem Program.Ordered.forall₂_leaf (hp : p.Ordered) {n : NodeId} {node : Node} (hnode : p.node? n = some node)
    {d : NodeDump} (hd : d.At p file n) (hleaf : node.children = []) :
    List.Forall₂ (NodeDump.At p file) [d] (p.subtree n) := by
  rw [← List.nil_append [d]]
  exact hp.forall₂_concat hnode hd (hleaf ▸ .nil)

theorem IdentDump.At.forall₂_subtree (hp : p.Ordered) {i : IdentDump} {isDef : Bool} {n : NodeId}
    (h : i.At p file isDef n) : List.Forall₂ (NodeDump.At p file) [.ident { i with isDef }] (p.subtree n) := by
  obtain ⟨obj, hnode, -⟩ := h.node
  refine hp.forall₂_leaf hnode ?_ rfl
  rw [NodeDump.At]
  exact ⟨h.node, h.pos⟩

mutual

/-- The dumps of the nodes of a tree are those of the nodes below its root, one by one. -/
theorem NodeDump.At.forall₂_subtree (hp : p.Ordered) : (d : NodeDump) → {n : NodeId} → d.At p file n →
    List.Forall₂ (NodeDump.At p file) d.subtree (p.subtree n)
  | .ident i, n, h => by
    rw [NodeDump.At] at h
    rw [NodeDump.subtree]
    exact h.forall₂_subtree hp
  | .literal kind raw pos, n, h => by
    have hd := h
    rw [NodeDump.At] at h
    rw [NodeDump.subtree]
    exact hp.forall₂_leaf h.1 hd rfl
  | .selector x sel type, n, h => by
    have hd := h
    rw [NodeDump.At] at h
    obtain ⟨x', sel', hnode, -, hx, hsel⟩ := h
    rw [NodeDump.subtree, ← List.append_assoc]
    refine hp.forall₂_concat hnode hd ?_
    simpa [Node.children] using List.rel_append (NodeDump.At.forall₂_subtree hp x hx) (hsel.forall₂_subtree hp)
  | .call callee args spread type, n, h => by
    have hd := h
    rw [NodeDump.At] at h
    obtain ⟨callee', args', hnode, -, hcallee, hargs⟩ := h
    rw [NodeDump.subtree, ← List.append_assoc]
    refine hp.forall₂_concat hnode hd ?_
    rw [Node.children, List.flatMap_cons]
    exact List.rel_append (NodeDump.At.forall₂_subtree hp callee hcallee)
      (NodeDump.AllAt.forall₂_subtrees hp args hargs)
  | .keyValue key value, n, h => by
    have hd := h
    rw [NodeDump.At] at h
    obtain ⟨key', value', hnode, -, hkey, hvalue⟩ := h
    rw [NodeDump.subtree, ← List.append_assoc]
    refine hp.forall₂_concat hnode hd ?_
    simpa [Node.children] using
      List.rel_append (NodeDump.At.forall₂_subtree hp key hkey) (NodeDump.At.forall₂_subtree hp value hvalue)
  | .unary op x pos, n, h => by
    have hd := h
    rw [NodeDump.At] at h
    obtain ⟨x', hnode, -, hx⟩ := h
    rw [NodeDump.subtree]
    refine hp.forall₂_concat hnode hd ?_
    simpa [Node.children] using NodeDump.At.forall₂_subtree hp x hx
  | .composite _ elts _, n, h | .block elts _, n, h | .other _ elts _, n, h => by
    have hd := h
    rw [NodeDump.At] at h
    obtain ⟨elts', hnode, -, helts⟩ := h
    rw [NodeDump.subtree]
    exact hp.forall₂_concat hnode hd (NodeDump.AllAt.forall₂_subtrees hp elts helts)
  | .assign lhs rhs define, n, h => by
    have hd := h
    rw [NodeDump.At] at h
    obtain ⟨lhs', rhs', hnode, -, hlhs, hrhs⟩ := h
    rw [NodeDump.subtree, ← List.append_assoc]
    refine hp.forall₂_concat hnode hd ?_
    rw [Node.children, List.flatMap_append]
    exact List.rel_append (NodeDump.AllAt.forall₂_subtrees hp lhs hlhs) (NodeDump.AllAt.forall₂_subtrees hp rhs hrhs)
  | .valueDecl names values, n, h => by
    have hd := h
    rw [NodeDump.At] at h
    obtain ⟨names', values', hnode, -, hnames, hvalues⟩ := h
    rw [NodeDump.subtree, ← List.append_assoc]
    refine hp.forall₂_concat hnode hd ?_
    rw [Node.children, List.flatMap_append, List.map_eq_flatMap]
    exact List.rel_append (List.rel_flatMap hnames fun _ _ hi => hi.forall₂_subtree hp)
      (NodeDump.AllAt.forall₂_subtrees hp values hvalues)

theorem NodeDump.AllAt.forall₂_subtrees (hp : p.Ordered) : (ds : List NodeDump) → {ns : List NodeId} →
    NodeDump.AllAt p file ds ns → List.Forall₂ (NodeDump.At p file) (NodeDump.subtrees ds) (ns.flatMap p.subtree)
  | [], ns, h => by
    rw [NodeDump.AllAt] at h
    rw [NodeDump.subtrees, h]
    exact .nil
  | d :: ds, ns, h => by
    rw [NodeDump.AllAt] at h
    obtain ⟨n, ns', rfl, hn, hns⟩ := h
    rw [NodeDump.subtrees, List.flatMap_cons]
    exact List.rel_append (NodeDump.At.forall₂_subtree hp d hn) (NodeDump.AllAt.forall₂_subtrees hp ds hns)

end

end

namespace Program

variable {p : Program}

/-- The nodes of a program are those of the trees that it was made from, one by one. -/
theorem Collects.forall₂_nodes {names : List String} {entries : List (String × NodeDump)} {roots : List NodeId}
    (h : Collects names entries roots p) (hp : p.Ordered) :
    List.Forall₂ (fun d n => ∃ file, d.At p file n) (entries.flatMap fun e => e.2.subtree)
      (List.range p.nodes.size) := by
  rw [List.range_eq_range', ← Nat.sub_zero p.nodes.size, ← h.spans.subtrees]
  refine List.rel_flatMap h.trees fun e n he => ?_
  obtain ⟨file, -, hn⟩ := he
  exact (NodeDump.At.forall₂_subtree hp e.2 hn).imp fun d m hm => ⟨file, hm⟩

theorem TypedFrom.forall₂_nodes {ds : List NodeDump} (h : p.TypedFrom 0 ds) :
    List.Forall₂ (fun d n => p.HasType d.writtenType? n) ds (List.range p.nodes.size) := by
  have hsize : p.nodes.size = ds.length := by rw [h.size, Nat.zero_add]
  refine List.forall₂_of_length_eq_of_get (by rw [List.length_range, hsize]) fun i hi _ => ?_
  have htype := h.types (List.getElem?_eq_getElem hi)
  rw [Nat.zero_add] at htype
  simpa using htype

/-- In a program that dumps describe each node is that of a dump, and has the type that is written there or else the
type that follows, in this program, from its symbol, its children or its kind. -/
theorem types_of_ofDumps {ds : List PackageDump} (h : Program.ofDumps ds = .ok p) :
    List.Forall₂ (fun d n => (∃ file, d.At p file n) ∧ p.HasType d.writtenType? n) (nodeEntries (filesOf ds))
      (List.range p.nodes.size) := by
  obtain ⟨p₀, p₁, hstage, hadded⟩ := Build.Stage.exists_of_ok h
  obtain ⟨roots, hroots⟩ := hstage.exists_collects hadded
  -- the order of the nodes is that of the trees that are read back, and that in which they were added
  have hnodes := hroots.forall₂_nodes (isForest_of_ofDumps h).ordered
  rw [← nodeEntries_eq] at hnodes
  have happends : Build.Appends p₁ ((filesOf ds).forM Build.declsOf) (nodeEntries (filesOf ds)) fun _ _ => True :=
    .forM fun f _ => Build.appends_declsOf f
  have htyped := (happends.of_ok (hstage.wellFormed false) hadded).2.1.2
  rw [hstage.nodes_size] at htyped
  exact hnodes.mp (fun d n hd htype => ⟨hd, htype⟩) htyped.forall₂_nodes

end Program

/-- A dump with the identifiers, types, calls and literals of four small declarations.  A field is selected through a
pointer and an embedded struct.  The pointer to what a call gives is the type that a symbol has already.  A type is
written for the last identifier, and names a type that is not declared.  There is a literal of each kind; the integers
have a type that a field has already. -/
def PackageDump.selected : PackageDump where
  files := [{
    name := "a"
    decls := [
      .assign [.ident { name := "id", isDef := true, pos := "1:1" }]
        [.selector (.ident { name := "u", obj := "u", pos := "1:7" }) { name := "ID", pos := "1:9" } none] true,
      .unary "&" (.call (.ident { name := "find", obj := "find", pos := "2:2" }) [] false none) "2:1",
      .unary "*" (.ident { name := "late", pos := "3:2", type := "[]pkg.Late" }) "3:1",
      .composite "[]any" [.literal .string "\"a\"" "4:7", .literal .int "1" "4:12", .literal .float "1.5" "4:15",
        .literal .char "'a'" "4:20", .literal .imag "2i" "4:25"] "4:1"] }]
  types := [{ name := "User", fields := some [{ name := "Base", type := "Base", embedded := true }] },
    { name := "Base", fields := some [{ name := "ID", type := "int" }] }]
  objects := [{ key := "u", kind := .var, type := "*User" },
    { key := "find", kind := .func, params := some [], results := ["User"] }]

/-- The program of this dump. -/
def Program.ofSelected : Program where
  files := #[⟨"a", [4, 7, 9, 15]⟩]
  nodes := #[⟨.ident "id" none true, ⟨0, 1, 1⟩, none⟩, ⟨.ident "u" (some 0) false, ⟨0, 1, 7⟩, some 5⟩,
    ⟨.ident "ID" none false, ⟨0, 1, 9⟩, none⟩, ⟨.selector 1 2, ⟨0, 1, 7⟩, some 3⟩,
    ⟨.assign [0] [3] true, ⟨0, 1, 1⟩, none⟩, ⟨.ident "find" (some 1) false, ⟨0, 2, 2⟩, some 6⟩,
    ⟨.call 5 [] false, ⟨0, 2, 2⟩, some 0⟩, ⟨.unary "&" 6, ⟨0, 2, 1⟩, some 5⟩,
    ⟨.ident "late" none false, ⟨0, 3, 2⟩, some 8⟩, ⟨.unary "*" 8, ⟨0, 3, 1⟩, none⟩,
    ⟨.literal .string "\"a\"", ⟨0, 4, 7⟩, some 11⟩, ⟨.literal .int "1", ⟨0, 4, 12⟩, some 3⟩,
    ⟨.literal .float "1.5", ⟨0, 4, 15⟩, some 12⟩, ⟨.literal .char "'a'", ⟨0, 4, 20⟩, some 13⟩,
    ⟨.literal .imag "2i", ⟨0, 4, 25⟩, some 14⟩, ⟨.composite [10, 11, 12, 13, 14], ⟨0, 4, 1⟩, some 10⟩]
  types := ⟨#[.named ⟨"User", none, some 2, []⟩, .named ⟨"Base", none, some 4, []⟩,
    .struct [⟨"Base", 1, true, none, none⟩], .basic "int", .struct [⟨"ID", 3, false, none, none⟩], .pointer 0,
    .signature ⟨[], false, [0]⟩, .named ⟨"pkg.Late", none, none, []⟩, .slice 7, .interface, .slice 9,
    .basic "string", .basic "float64", .basic "rune", .basic "complex128"]⟩
  objects := #[⟨"u", "u", .var, some 5, none, none⟩, ⟨"find", "find", .func, some 6, none, none⟩]

theorem Program.types_of_ofDumps_selected :
    Program.ofDumps [.selected] = .ok .ofSelected ∧
      List.Forall₂ (fun d n => (∃ file, d.At ofSelected file n) ∧ ofSelected.HasType d.writtenType? n)
        (nodeEntries (filesOf [.selected])) (List.range 16) ∧
      ofSelected.IsBasic "string" (ofSelected.type? 10) ∧ ofSelected.IsBasic "int" (ofSelected.type? 11) ∧
      ofSelected.IsBasic "float64" (ofSelected.type? 12) ∧ ofSelected.IsBasic "rune" (ofSelected.type? 13) ∧
      ofSelected.IsBasic "complex128" (ofSelected.type? 14) := by
  have hrun : Program.ofDumps [.selected] = .ok .ofSelected := by decide +kernel
  have hnodes := types_of_ofDumps hrun
  have hderives : ∀ i d node, (nodeEntries (filesOf [.selected]))[i]? = some d → d.writtenType? = none →
      ofSelected.node? i = some node → ofSelected.DerivesType node (ofSelected.type? i) := by
    intro i d node hd hwritten hnode
    obtain ⟨hi, rfl⟩ := List.getElem?_eq_some_iff.1 hd
    obtain ⟨-, htype⟩ := hnodes.get hi (hnodes.length_eq ▸ hi)
    simp only [List.get_eq_getElem, List.getElem_range, hwritten] at htype
    obtain ⟨node', hnode', htype⟩ := htype
    obtain rfl : node = node' := Option.some.inj (hnode.symm.trans hnode')
    exact htype
  exact ⟨hrun, hnodes, hderives 10 _ (.literal .string _) rfl rfl rfl, hderives 11 _ (.literal .int _) rfl rfl rfl,
    hderives 12 _ (.literal .float _) rfl rfl rfl, hderives 13 _ (.literal .char _) rfl rfl rfl,
    hderives 14 _ (.literal .imag _) rfl rfl rfl⟩

end FluentChain
