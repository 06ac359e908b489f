import FluentChain.Proofs.Merge.Reading
import FluentChain.Proofs.Syntax.Forest

/-!
# Reading trees back

A tree of a dump can be read off the nodes of a program: kinds, names, flags and texts are those of the dump, children
stand in their order, and every node is where it is written to be or else where its first child is (`NodeDump.At`).
What is added to a program later leaves all this as it is (`NodeDump.At.mono`).
-/

namespace FluentChain

namespace Program

variable {p q r : Program}

/-! ### Places -/

/-- In a tree of the file `file`, the text writes the position `pos`.  A text without a file name is about that
file. -/
def PlacedBy (p : Program) (file : FileId) (text : String) (pos : Pos) : Prop :=
  p.Places text pos ∨ WrittenPos.parse? text = some ⟨none, pos.line, pos.col⟩ ∧ pos.file = file

/-- The node stands where its first child does, and at the very first position if it has no children. -/
def StandsFirst (p : Program) (n : NodeId) : Prop :=
  p.pos n = ((p.children n).head?.map p.pos).getD ⟨0, 0, 0⟩

/-! ### What a program keeps -/

/-- The nodes of a program with their positions. -/
def placedNodes (p : Program) : List (Node × Pos) := p.nodes.toList.map fun d => (d.node, d.pos)

/-- The program `q` has the files, symbols and nodes of `p`, and more files and nodes behind them. -/
structure Retains (p q : Program) : Prop where
  files : p.fileNames <+: q.fileNames
  objects : q.objects = p.objects
  nodes : p.placedNodes <+: q.placedNodes

/-- What a node is and where it stands, without its type. -/
theorem getElem?_placedNodes (n : NodeId) : p.placedNodes[n]? = p.nodes[n]?.map fun d => (d.node, d.pos) := by
  simp [placedNodes]

theorem node?_eq_placedNodes (n : NodeId) : p.node? n = p.placedNodes[n]?.map Prod.fst := by
  rw [getElem?_placedNodes, Option.map_map]
  rfl

theorem pos_eq_placedNodes (n : NodeId) : p.pos n = (p.placedNodes[n]?.map Prod.snd).getD default := by
  rw [getElem?_placedNodes, Option.map_map]
  rfl

theorem length_placedNodes : p.placedNodes.length = p.nodes.size := by
  simp [placedNodes]

namespace Retains

theorem refl (p : Program) : p.Retains p := ⟨List.prefix_refl _, rfl, List.prefix_refl _⟩

/-- What is kept through both of two stretches of building is kept through them together. -/
theorem trans (h : p.Retains q) (h' : q.Retains r) : p.Retains r :=
  ⟨h.files.trans h'.files, h'.objects.trans h.objects, h.nodes.trans h'.nodes⟩

theorem size_le (h : p.Retains q) : p.nodes.size ≤ q.nodes.size := by
  simpa only [length_placedNodes] using h.nodes.length_le

/-- A node stays what it is, in its place, when others are added behind it. -/
theorem getElem?_placedNodes_eq (h : p.Retains q) {n : NodeId} (hn : n < p.nodes.size) :
    q.placedNodes[n]? = p.placedNodes[n]? := by
  obtain ⟨more, hmore⟩ := h.nodes
  rw [← hmore, List.getElem?_append_left (by rwa [length_placedNodes])]

theorem node?_eq (h : p.Retains q) {n : NodeId} (hn : n < p.nodes.size) : q.node? n = p.node? n := by
  rw [node?_eq_placedNodes, h.getElem?_placedNodes_eq hn, ← node?_eq_placedNodes]

theorem pos_eq (h : p.Retains q) {n : NodeId} (hn : n < p.nodes.size) : q.pos n = p.pos n := by
  rw [pos_eq_placedNodes, h.getElem?_placedNodes_eq hn, ← pos_eq_placedNodes]

theorem children_eq (h : p.Retains q) {n : NodeId} (hn : n < p.nodes.size) : q.children n = p.children n := by
  rw [children, h.node?_eq hn, ← children]

/-- A tree stays the tree that it is. -/
theorem subtree_eq (h : p.Retains q) {n : NodeId} (hn : n < p.nodes.size) : q.subtree n = p.subtree n := by
  induction n using Nat.strongRecOn with
  | _ n ih =>
    have hsubnodes : q.subnodes n = p.subnodes n := by rw [subnodes, h.children_eq hn, ← subnodes]
    rw [subtree, subtree, hsubnodes]
    congr 1
    exact List.flatMap_congr fun c _ => ih c.1 c.2 (Nat.lt_trans c.2 hn)

end Retains

/-- A place is read back in the same way when more files are registered. -/
theorem PlacedBy.mono {file : FileId} {text : String} {pos : Pos} (h : p.PlacedBy file text pos)
    (hfiles : p.fileNames <+: q.fileNames) : q.PlacedBy file text pos :=
  h.imp_left fun h => h.mono hfiles

/-- A node that stands where its first child stands still does. -/
theorem StandsFirst.mono {n : NodeId} (h : p.StandsFirst n) (hq : p.Retains q) (hn : n < p.nodes.size)
    (hchildren : ∀ c ∈ p.children n, c < p.nodes.size) : q.StandsFirst n := by
  rw [StandsFirst, hq.pos_eq hn, hq.children_eq hn, h]
  cases hcs : p.children n with
  | nil => rfl
  | cons c cs =>
    rw [hcs] at hchildren
    simp only [List.head?_cons, Option.map_some, Option.getD_some, hq.pos_eq (hchildren c (by simp))]

end Program

/-! ### Trees -/

/-- The node `n` is the identifier of a dump, and it names the symbol with the key that is written there. -/
structure IdentDump.At (p : Program) (file : FileId) (isDef : Bool) (i : IdentDump) (n : NodeId) : Prop where
  node : ∃ obj, p.node? n = some (.ident i.name obj isDef) ∧
    Option.Rel (fun key o => p.lookupObject? key = some o) i.obj obj
  pos : p.PlacedBy file i.pos (p.pos n)

mutual

/-- The node `n` is the root of the tree of a dump, which is in the file `file`. -/
def NodeDump.At (p : Program) (file : FileId) : NodeDump → NodeId → Prop
  | .ident i, n => i.At p file i.isDef n
  | .selector x sel _, n => ∃ x' sel', p.node? n = some (.selector x' sel') ∧ p.StandsFirst n ∧
    x.At p file x' ∧ sel.At p file sel.isDef sel'
  | .call callee args spread _, n => ∃ callee' args', p.node? n = some (.call callee' args' spread) ∧
    p.StandsFirst n ∧ callee.At p file callee' ∧ NodeDump.AllAt p file args args'
  | .composite _ elts pos, n => ∃ elts', p.node? n = some (.composite elts') ∧ p.PlacedBy file pos (p.pos n) ∧
    NodeDump.AllAt p file elts elts'
  | .keyValue key value, n => ∃ key' value', p.node? n = some (.keyValue key' value') ∧ p.StandsFirst n ∧
    key.At p file key' ∧ value.At p file value'
  | .literal kind raw pos, n => p.node? n = some (.literal kind raw) ∧ p.PlacedBy file pos (p.pos n)
  | .unary op x pos, n => ∃ x', p.node? n = some (.unary op x') ∧ p.PlacedBy file pos (p.pos n) ∧ x.At p file x'
  | .block stmts pos, n => ∃ stmts', p.node? n = some (.block stmts') ∧ p.PlacedBy file pos (p.pos n) ∧
    NodeDump.AllAt p file stmts stmts'
  | .assign lhs rhs define, n => ∃ lhs' rhs', p.node? n = some (.assign lhs' rhs' define) ∧ p.StandsFirst n ∧
    NodeDump.AllAt p file lhs lhs' ∧ NodeDump.AllAt p file rhs rhs'
  | .valueDecl names values, n => ∃ names' values', p.node? n = some (.valueDecl names' values') ∧ p.StandsFirst n ∧
    List.Forall₂ (IdentDump.At p file true) names names' ∧ NodeDump.AllAt p file values values'
  | .other label children pos, n => ∃ children', p.node? n = some (.other label children') ∧
    p.PlacedBy file pos (p.pos n) ∧ NodeDump.AllAt p file children children'

/-- The nodes are the roots of the trees, one after another. -/
def NodeDump.AllAt (p : Program) (file : FileId) : List NodeDump → List NodeId → Prop
  | [], ns => ns = []
  | d :: ds, ns => ∃ n ns', ns = n :: ns' ∧ d.At p file n ∧ NodeDump.AllAt p file ds ns'

end

section

variable {p q : Program} {file : FileId}

theorem IdentDump.At.lt_size {isDef : Bool} {i : IdentDump} {n : NodeId} (h : i.At p file isDef n) :
    n < p.nodes.size := by
  obtain ⟨obj, hnode, -⟩ := h.node
  exact Program.lt_size_of_node? hnode

/-- An identifier that is read back is read back in all that is made of the program later. -/
theorem IdentDump.At.mono {isDef : Bool} {i : IdentDump} {n : NodeId} (h : i.At p file isDef n) (hq : p.Retains q) :
    i.At q file isDef n where
  node := by
    obtain ⟨obj, hnode, hobj⟩ := h.node
    refine ⟨obj, (hq.node?_eq h.lt_size).trans hnode, rel_imp hobj fun key o ho => ?_⟩
    rw [Program.lookupObject?, hq.objects]
    exact ho
  pos := by
    rw [hq.pos_eq h.lt_size]
    exact h.pos.mono hq.files

/-- What is read back from a program is in its range. -/
theorem NodeDump.At.lt_size : {d : NodeDump} → {n : NodeId} → d.At p file n → n < p.nodes.size
  | .ident _, _, h => by
    rw [NodeDump.At] at h
    exact h.lt_size
  | .literal .., _, h => by
    rw [NodeDump.At] at h
    exact Program.lt_size_of_node? h.1
  | .selector .., _, h | .call .., _, h | .keyValue .., _, h | .assign .., _, h | .valueDecl .., _, h => by
    rw [NodeDump.At] at h
    obtain ⟨_, _, hnode, -⟩ := h
    exact Program.lt_size_of_node? hnode
  | .composite .., _, h | .unary .., _, h | .block .., _, h | .other .., _, h => by
    rw [NodeDump.At] at h
    obtain ⟨_, hnode, -⟩ := h
    exact Program.lt_size_of_node? hnode

theorem NodeDump.AllAt.lt_size {ds : List NodeDump} {ns : List NodeId} (h : NodeDump.AllAt p file ds ns) :
    ∀ n ∈ ns, n < p.nodes.size := by
  induction ds generalizing ns with
  | nil =>
    rw [NodeDump.AllAt] at h
    simp [h]
  | cons d ds ih =>
    rw [NodeDump.AllAt] at h
    obtain ⟨n, ns', rfl, hn, hns⟩ := h
    exact List.forall_mem_cons.2 ⟨hn.lt_size, ih hns⟩

/-- So are the children of what is read back. -/
theorem NodeDump.At.children_lt {d : NodeDump} {n : NodeId} (h : d.At p file n) :
    ∀ c ∈ p.children n, c < p.nodes.size := by
  cases d with
  | ident i =>
    rw [NodeDump.At] at h
    obtain ⟨obj, hnode, -⟩ := h.node
    simp [Program.children_of_node? hnode, Node.children]
  | literal kind raw pos =>
    rw [NodeDump.At] at h
    simp [Program.children_of_node? h.1, Node.children]
  | selector x sel type =>
    rw [NodeDump.At] at h
    obtain ⟨x', sel', hnode, -, hx, hsel⟩ := h
    simpa [Program.children_of_node? hnode, Node.children] using ⟨hx.lt_size, hsel.lt_size⟩
  | call callee args spread type =>
    rw [NodeDump.At] at h
    obtain ⟨callee', args', hnode, -, hcallee, hargs⟩ := h
    simpa [Program.children_of_node? hnode, Node.children] using ⟨hcallee.lt_size, hargs.lt_size⟩
  | keyValue key value =>
    rw [NodeDump.At] at h
    obtain ⟨key', value', hnode, -, hkey, hvalue⟩ := h
    simpa [Program.children_of_node? hnode, Node.children] using ⟨hkey.lt_size, hvalue.lt_size⟩
  | unary op x pos =>
    rw [NodeDump.At] at h
    obtain ⟨x', hnode, -, hx⟩ := h
    simpa [Program.children_of_node? hnode, Node.children] using hx.lt_size
  | composite type elts pos | block elts pos | other label elts pos =>
    rw [NodeDump.At] at h
    obtain ⟨elts', hnode, -, helts⟩ := h
    simpa [Program.children_of_node? hnode, Node.children] using helts.lt_size
  | assign lhs rhs define =>
    rw [NodeDump.At] at h
    obtain ⟨lhs', rhs', hnode, -, hlhs, hrhs⟩ := h
    rw [Program.children_of_node? hnode]
    exact List.forall_mem_append.2 ⟨hlhs.lt_size, hrhs.lt_size⟩
  | valueDecl names values =>
    rw [NodeDump.At] at h
    obtain ⟨names', values', hnode, -, hnames, hvalues⟩ := h
    rw [Program.children_of_node? hnode]
    refine List.forall_mem_append.2 ⟨fun n hn => ?_, hvalues.lt_size⟩
    obtain ⟨i, -, hi⟩ := exists_of_mem_right hnames hn
    exact hi.lt_size

mutual

/-- What is read off a program stays what is read off it when more is added. -/
theorem NodeDump.At.mono (hq : p.Retains q) : (d : NodeDump) → {n : NodeId} → d.At p file n → d.At q file n
  | .ident i, n, h => by
    rw [NodeDump.At] at h ⊢
    exact h.mono hq
  | .selector x sel type, n, h => by
    have hn := h.lt_size
    have hlt := h.children_lt
    rw [NodeDump.At] at h ⊢
    obtain ⟨x', sel', hnode, hfirst, hx, hsel⟩ := h
    exact ⟨x', sel', (hq.node?_eq hn).trans hnode, hfirst.mono hq hn hlt, NodeDump.At.mono hq x hx, hsel.mono hq⟩
  | .call callee args spread type, n, h => by
    have hn := h.lt_size
    have hlt := h.children_lt
    rw [NodeDump.At] at h ⊢
    obtain ⟨callee', args', hnode, hfirst, hcallee, hargs⟩ := h
    exact ⟨callee', args', (hq.node?_eq hn).trans hnode, hfirst.mono hq hn hlt, NodeDump.At.mono hq callee hcallee,
      NodeDump.AllAt.mono hq args hargs⟩
  | .composite type elts pos, n, h => by
    have hn := h.lt_size
    rw [NodeDump.At] at h ⊢
    obtain ⟨elts', hnode, hpos, helts⟩ := h
    refine ⟨elts', (hq.node?_eq hn).trans hnode, ?_, NodeDump.AllAt.mono hq elts helts⟩
    exact hq.pos_eq hn ▸ hpos.mono hq.files
  | .keyValue key value, n, h => by
    have hn := h.lt_size
    have hlt := h.children_lt
    rw [NodeDump.At] at h ⊢
    obtain ⟨key', value', hnode, hfirst, hkey, hvalue⟩ := h
    exact ⟨key', value', (hq.node?_eq hn).trans hnode, hfirst.mono hq hn hlt, NodeDump.At.mono hq key hkey,
      NodeDump.At.mono hq value hvalue⟩
  | .literal kind raw pos, n, h => by
    have hn := h.lt_size
    rw [NodeDump.At] at h ⊢
    exact ⟨(hq.node?_eq hn).trans h.1, hq.pos_eq hn ▸ h.2.mono hq.files⟩
  | .unary op x pos, n, h => by
    have hn := h.lt_size
    rw [NodeDump.At] at h ⊢
    obtain ⟨x', hnode, hpos, hx⟩ := h
    refine ⟨x', (hq.node?_eq hn).trans hnode, ?_, NodeDump.At.mono hq x hx⟩
    exact hq.pos_eq hn ▸ hpos.mono hq.files
  | .block stmts pos, n, h => by
    have hn := h.lt_size
    rw [NodeDump.At] at h ⊢
    obtain ⟨stmts', hnode, hpos, hstmts⟩ := h
    refine ⟨stmts', (hq.node?_eq hn).trans hnode, ?_, NodeDump.AllAt.mono hq stmts hstmts⟩
    exact hq.pos_eq hn ▸ hpos.mono hq.files
  | .assign lhs rhs define, n, h => by
    have hn := h.lt_size
    have hlt := h.children_lt
    rw [NodeDump.At] at h ⊢
    obtain ⟨lhs', rhs', hnode, hfirst, hlhs, hrhs⟩ := h
    exact ⟨lhs', rhs', (hq.node?_eq hn).trans hnode, hfirst.mono hq hn hlt, NodeDump.AllAt.mono hq lhs hlhs,
      NodeDump.AllAt.mono hq rhs hrhs⟩
  | .valueDecl names values, n, h => by
    have hn := h.lt_size
    have hlt := h.children_lt
    rw [NodeDump.At] at h ⊢
    obtain ⟨names', values', hnode, hfirst, hnames, hvalues⟩ := h
    exact ⟨names', values', (hq.node?_eq hn).trans hnode, hfirst.mono hq hn hlt, hnames.imp fun _ _ hi => hi.mono hq,
      NodeDump.AllAt.mono hq values hvalues⟩
  | .other label children pos, n, h => by
    have hn := h.lt_size
    rw [NodeDump.At] at h ⊢
    obtain ⟨children', hnode, hpos, hchildren⟩ := h
    refine ⟨children', (hq.node?_eq hn).trans hnode, ?_, NodeDump.AllAt.mono hq children hchildren⟩
    exact hq.pos_eq hn ▸ hpos.mono hq.files

/-- A list of trees is read back in all that is made of the program later. -/
theorem NodeDump.AllAt.mono (hq : p.Retains q) : (ds : List NodeDump) → {ns : List NodeId} →
    NodeDump.AllAt p file ds ns → NodeDump.AllAt q file ds ns
  | [], ns, h => by
    rw [NodeDump.AllAt] at h ⊢
    exact h
  | d :: ds, ns, h => by
    rw [NodeDump.AllAt] at h ⊢
    obtain ⟨n, ns', hns, hn, hrest⟩ := h
    exact ⟨n, ns', hns, NodeDump.At.mono hq d hn, NodeDump.AllAt.mono hq ds hrest⟩

end

end

end FluentChain
