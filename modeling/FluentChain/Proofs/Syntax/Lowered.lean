import Mathlib.Data.List.Nodup
import FluentChain.Dump.Merge
import FluentChain.Proofs.Ensures
import FluentChain.Proofs.Syntax.Forest

/-!
# Programs made from dumps

A program that dumps describe is a forest (`isForest_of_ofDumps`).  Trees are added from their leaves on, so at
any time some nodes wait for the node they will belong to: in a `Grove` every node stands in one place, where the
nodes that wait count as places too.  A new node takes the nodes that are its children from those that wait, and
waits itself.
-/

namespace FluentChain

/-- What the forest of a program is made of: its nodes without their data, and its declarations. -/
def Program.syntaxOf (p : Program) : List Node × List NodeId := (p.nodes.toList.map (·.node), p.decls)

def Program.IsIdent (p : Program) (n : NodeId) : Prop := ∃ name obj isDef, p.node? n = some (.ident name obj isDef)

/-- A forest under construction in at least `files` files, in which the nodes in `ns` belong nowhere yet. -/
structure Grove (files : Nat) (p : Program) (ns : List NodeId) : Prop where
  files : files ≤ p.files.size
  ordered : p.Ordered
  lt_size : ∀ n ∈ p.decls ++ ns, n < p.nodes.size
  nodup : (p.syntaxOf.1.flatMap Node.children ++ (p.decls ++ ns)).Nodup
  placed : ∀ n < p.nodes.size, n ∈ p.syntaxOf.1.flatMap Node.children ++ (p.decls ++ ns)
  selected : ∀ {n x sel : NodeId}, p.node? n = some (.selector x sel) → p.IsIdent sel

namespace Program

variable {p q : Program}

theorem getElem?_syntaxOf (n : NodeId) : p.syntaxOf.1[n]? = p.node? n := by
  simp [syntaxOf, node?]

theorem length_syntaxOf : p.syntaxOf.1.length = p.nodes.size := by
  simp [syntaxOf]

/-- The same syntax has the same node under each number. -/
theorem node?_of_syntaxOf_eq (h : q.syntaxOf = p.syntaxOf) (n : NodeId) : q.node? n = p.node? n := by
  rw [← getElem?_syntaxOf, ← getElem?_syntaxOf, h]

theorem IsIdent.of_syntaxOf_eq {n : NodeId} (hn : p.IsIdent n) (h : q.syntaxOf = p.syntaxOf) : q.IsIdent n := by
  obtain ⟨name, obj, isDef, hn⟩ := hn
  exact ⟨name, obj, isDef, (node?_of_syntaxOf_eq h n).trans hn⟩

/-- What is an identifier stays one when a node is added. -/
theorem IsIdent.push {n : NodeId} (hn : p.IsIdent n) (d : NodeData) :
    ({ p with nodes := p.nodes.push d } : Program).IsIdent n := by
  obtain ⟨name, obj, isDef, hn⟩ := hn
  obtain ⟨data, hdata, hnode⟩ := Option.map_eq_some_iff.1 hn
  have hlt := (Array.getElem?_eq_some_iff.1 hdata).1
  refine ⟨name, obj, isDef, ?_⟩
  rw [node?, Array.getElem?_push, if_neg (Nat.ne_of_lt hlt), hdata, Option.map_some, hnode]

/-- A new node comes behind the nodes that there are. -/
theorem syntaxOf_pushNode (p : Program) (d : NodeData) :
    ({ p with nodes := p.nodes.push d } : Program).syntaxOf.1 = p.syntaxOf.1 ++ [d.node] := by
  simp [syntaxOf]

/-- A new node whose children are there keeps a program in order. -/
theorem Ordered.pushNode (hp : p.Ordered) {d : NodeData} (h : ∀ c ∈ d.node.children, c < p.nodes.size) :
    ({ p with nodes := p.nodes.push d } : Program).Ordered := by
  intro n c hc
  obtain ⟨parent, hparent, hc⟩ := exists_node_of_mem_children hc
  simp only [node?, Array.getElem?_push] at hparent
  split at hparent
  · rename_i heq
    cases hparent
    rw [heq]
    exact h c hc
  · exact hp n c (by rwa [children_of_node? hparent])

/-- The children of a new node have left those that wait, and the new node is the one new place. -/
theorem perm_places (nodes : List Node) (node : Node) (decls waiting : List NodeId) (new : NodeId) :
    ((nodes ++ [node]).flatMap Node.children ++ (decls ++ new :: waiting)).Perm
      (new :: (nodes.flatMap Node.children ++ (decls ++ (node.children ++ waiting)))) := by
  rw [List.perm_iff_count]
  intro c
  simp only [List.flatMap_append, List.flatMap_singleton, List.count_append, List.count_cons]
  omega

end Program

namespace Grove

variable {files : Nat} {p q : Program} {ns : List NodeId}

/-- A grove is one by its syntax alone, as long as no file is taken away. -/
theorem of_syntaxOf_eq (h : Grove files p ns) (heq : q.syntaxOf = p.syntaxOf) {files' : Nat}
    (hfiles : files' ≤ q.files.size) : Grove files' q ns := by
  have hdecls : q.decls = p.decls := congrArg Prod.snd heq
  have hsize : q.nodes.size = p.nodes.size := by
    rw [← Program.length_syntaxOf, ← Program.length_syntaxOf, heq]
  refine ⟨hfiles, ?_, ?_, ?_, ?_, ?_⟩
  · intro n c hc
    unfold Program.children at hc
    rw [Program.node?_of_syntaxOf_eq heq] at hc
    exact h.ordered n c hc
  · rw [hdecls, hsize]
    exact h.lt_size
  · rw [heq, hdecls]
    exact h.nodup
  · rw [heq, hdecls, hsize]
    exact h.placed
  · intro n x sel hn
    rw [Program.node?_of_syntaxOf_eq heq] at hn
    exact (h.selected hn).of_syntaxOf_eq heq

/-- The nodes that wait are in no order. -/
theorem perm (h : Grove files p ns) {ns' : List NodeId} (hperm : ns'.Perm ns) : Grove files p ns' where
  files := h.files
  ordered := h.ordered
  lt_size n hn := h.lt_size n ((hperm.append_left _).subset hn)
  nodup := ((hperm.append_left _).append_left _).nodup_iff.2 h.nodup
  placed n hn := ((hperm.append_left _).append_left _).symm.subset (h.placed n hn)
  selected := h.selected

theorem empty : Grove 0 {} [] where
  files := Nat.zero_le _
  ordered n c hc := by simp [Program.children, Program.node?] at hc
  lt_size n hn := by simp [Program.decls] at hn
  nodup := by simp [Program.syntaxOf, Program.decls]
  placed n hn := by simp at hn
  selected hn := by simp [Program.node?] at hn

/-- Every node of a grove has at most one place, and children stand before their nodes, so it is a forest. -/
theorem isForest (h : Grove files p ns) : p.IsForest := by
  obtain ⟨hnodes, hrest, hdisjoint⟩ := List.nodup_append'.1 h.nodup
  obtain ⟨hchildren, hpairwise⟩ := List.nodup_flatMap.1 hnodes
  have hnode : ∀ {n c}, c ∈ p.children n → ∃ h : n < p.syntaxOf.1.length, c ∈ p.syntaxOf.1[n].children := by
    intro n c hc
    obtain ⟨node, hnode, hc⟩ := Program.exists_node_of_mem_children hc
    rw [← Program.getElem?_syntaxOf] at hnode
    obtain ⟨hlt, rfl⟩ := List.getElem?_eq_some_iff.1 hnode
    exact ⟨hlt, hc⟩
  -- the child lists of different nodes have nothing in common
  have hnot_lt : ∀ {m n c}, c ∈ p.children m → c ∈ p.children n → ¬ m < n := by
    intro m n c hm hn hlt
    obtain ⟨hm, hcm⟩ := hnode hm
    obtain ⟨hn, hcn⟩ := hnode hn
    exact List.pairwise_iff_getElem.1 hpairwise m n hm hn hlt hcm hcn
  refine ⟨h.ordered, ?_, ?_, (List.nodup_append'.1 hrest).1, ?_⟩
  · intro n
    unfold Program.children
    cases hnode : p.node? n with
    | none => exact List.nodup_nil
    | some node =>
      rw [← Program.getElem?_syntaxOf] at hnode
      exact hchildren node (List.mem_of_getElem? hnode)
  · intro m n c hm hn
    exact Nat.le_antisymm (Nat.not_lt.1 (hnot_lt hn hm)) (Nat.not_lt.1 (hnot_lt hm hn))
  · intro d n hd hdn
    obtain ⟨hn, hdn⟩ := hnode hdn
    exact hdisjoint (List.mem_flatMap.2 ⟨_, List.getElem_mem hn, hdn⟩) (List.mem_append_left _ hd)

/-- Where no node waits, every node is a child or a declaration. -/
theorem complete (h : Grove files p []) : p.Complete := by
  intro n hn
  rcases List.mem_append.1 (h.placed n hn) with hplace | hplace
  · obtain ⟨node, hnode, hplace⟩ := List.mem_flatMap.1 hplace
    obtain ⟨parent, hparent⟩ := List.mem_iff_getElem?.1 hnode
    rw [Program.getElem?_syntaxOf] at hparent
    exact Or.inr ⟨parent, by simpa [Program.children, hparent] using hplace⟩
  · exact Or.inl (by simpa using hplace)

private theorem lt_of_mem_children (h : Grove files p ns) {c : NodeId}
    (hc : c ∈ p.syntaxOf.1.flatMap Node.children) : c < p.nodes.size := by
  obtain ⟨node, hnode, hc⟩ := List.mem_flatMap.1 hc
  obtain ⟨n, hn⟩ := List.mem_iff_getElem?.1 hnode
  rw [Program.getElem?_syntaxOf] at hn
  have hchild : c ∈ p.children n := by simp [Program.children, hn, hc]
  exact Nat.lt_trans (h.ordered n c hchild) (Program.lt_size_of_mem_children hchild)

/-- A new node takes its children from those that wait. -/
theorem push {node : Node} (h : Grove files p (node.children ++ ns))
    (hselected : ∀ x sel, node = .selector x sel → p.IsIdent sel) (pos : Pos) (type : Option TypeId) :
    Grove files { p with nodes := p.nodes.push ⟨node, pos, type⟩ } (p.nodes.size :: ns) := by
  have hwaiting : ∀ c ∈ node.children, c < p.nodes.size := fun c hc => h.lt_size c (by simp [hc])
  have hrest : ∀ c ∈ p.decls ++ ns, c < p.nodes.size := by
    intro c hc
    rcases List.mem_append.1 hc with hc | hc
    · exact h.lt_size c (List.mem_append_left _ hc)
    · exact h.lt_size c (by simp [hc])
  have hplaces := Program.perm_places p.syntaxOf.1 node p.decls ns p.nodes.size
  refine ⟨h.files, h.ordered.pushNode hwaiting, ?_, ?_, ?_, ?_⟩
  · intro n hn
    rw [Array.size_push]
    rcases List.mem_append.1 hn with hn | hn
    · exact Nat.lt_succ_of_lt (hrest n (List.mem_append_left _ hn))
    · rcases List.mem_cons.1 hn with rfl | hn
      · exact Nat.lt_succ_self _
      · exact Nat.lt_succ_of_lt (hrest n (List.mem_append_right _ hn))
  · rw [Program.syntaxOf_pushNode]
    refine hplaces.nodup_iff.2 (List.nodup_cons.2 ⟨?_, h.nodup⟩)
    intro hmem
    rcases List.mem_append.1 hmem with hmem | hmem
    · exact Nat.lt_irrefl _ (h.lt_of_mem_children hmem)
    · exact Nat.lt_irrefl _ (h.lt_size _ hmem)
  · intro n hn
    rw [Program.syntaxOf_pushNode]
    refine hplaces.symm.subset (List.mem_cons.2 ?_)
    rw [Array.size_push] at hn
    exact (Nat.lt_succ_iff_lt_or_eq.1 hn).symm.imp_right (h.placed n)
  · intro n x sel hn
    simp only [Program.node?, Array.getElem?_push] at hn
    split at hn
    · exact (hselected x sel (Option.some.inj hn)).push _
    · exact (h.selected hn).push _

/-- A node that becomes a declaration waits no longer. -/
theorem pushDecl {n : NodeId} (h : Grove files p (n :: ns)) {withDecl : Array SourceFile}
    (hsize : withDecl.size = p.files.size)
    (hdecls : ({ p with files := withDecl } : Program).decls.Perm (n :: p.decls)) :
    Grove files { p with files := withDecl } ns := by
  have hplaces : (({ p with files := withDecl } : Program).decls ++ ns).Perm (p.decls ++ n :: ns) :=
    (hdecls.append_right ns).trans List.perm_middle.symm
  exact {
    files := hsize ▸ h.files
    ordered := h.ordered
    lt_size := fun m hm => h.lt_size m (hplaces.subset hm)
    nodup := ((hplaces.append_left _).nodup_iff).2 h.nodup
    placed := fun m hm => (hplaces.append_left _).symm.subset (h.placed m hm)
    selected := h.selected }

end Grove

/-! ### Steps that leave the syntax alone -/

namespace Build

variable {α β : Type}

/-- The step neither adds nor moves a node, and takes no file away. -/
def Bare (m : Build α) : Prop := ∀ forest files, Keeps (fun p => p.syntaxOf = forest ∧ files ≤ p.files.size) m

namespace Bare

/-- To give a value leaves the syntax alone. -/
theorem pure (a : α) : Bare (Pure.pure a) := fun _ _ => Ensures.pure fun _ h => h

theorem throw (e : LoadError) : Bare (MonadExcept.throw e : Build α) := fun _ _ => Ensures.throw fun _ h => h

theorem get : Bare (MonadState.get : Build Program) := fun _ _ => Ensures.get fun _ h => h

theorem modifyGet {f : Program → α × Program}
    (h : ∀ p, (f p).2.syntaxOf = p.syntaxOf ∧ p.files.size ≤ (f p).2.files.size) : Bare (MonadState.modifyGet f) :=
  fun _ _ => Ensures.modifyGet fun p hp => ⟨(h p).1.trans hp.1, Nat.le_trans hp.2 (h p).2⟩

/-- Steps that leave the syntax alone do so one after the other. -/
theorem bind {m : Build α} {f : α → Build β} (hm : Bare m) (hf : ∀ a, Bare (f a)) : Bare (m >>= f) :=
  fun forest files => Ensures.bind (hm forest files) fun a => hf a forest files

theorem map (f : α → β) {m : Build α} (h : Bare m) : Bare (f <$> m) := by
  rw [map_eq_pure_bind]
  exact bind h fun a => pure (f a)

theorem mapM {f : α → Build β} (l : List α) (h : ∀ a, Bare (f a)) : Bare (l.mapM f) :=
  fun forest files => Ensures.mapM (J := fun _ (p : Program) => p.syntaxOf = forest ∧ files ≤ p.files.size)
    (fun _ a _ => h a forest files) []

theorem forM {f : α → Build PUnit} (l : List α) (h : ∀ a, Bare (f a)) : Bare (l.forM f) :=
  fun forest files => Ensures.forM fun a _ => h a forest files

theorem option_mapM {f : α → Build β} (h : ∀ a, Bare (f a)) (a : Option α) : Bare (a.mapM f) := by
  cases a with
  | none => exact pure none
  | some a => exact bind (h a) fun b => pure (some b)

/-- The forest under construction is kept. -/
theorem grove {m : Build α} (h : Bare m) (files : Nat) (ns : List NodeId) :
    Ensures (fun p => Grove files p ns) m (fun _ p => Grove files p ns) fun _ _ => True := by
  refine Ensures.intro (fun p _ _ hp hrun => ?_) fun _ _ _ _ _ => trivial
  obtain ⟨hsame, hfiles⟩ := (h p.syntaxOf files).of_ok ⟨rfl, hp.files⟩ hrun
  exact hp.of_syntaxOf_eq hsame hfiles

/-- An identifier stays an identifier through a step that leaves the syntax alone. -/
theorem isIdent {m : Build α} (h : Bare m) {p q : Program} {n : NodeId} (hn : p.IsIdent n) {a : α}
    (hrun : m p = .ok a q) : q.IsIdent n :=
  hn.of_syntaxOf_eq ((h p.syntaxOf 0).of_ok ⟨rfl, Nat.zero_le _⟩ hrun).1

end Bare

theorem bare_onTypes (step : TypeTable → α × TypeTable) : Bare (onTypes step) :=
  Bare.modifyGet fun _ => ⟨rfl, Nat.le_refl _⟩

/-- A new file has no declarations yet, so it leaves the syntax alone. -/
theorem bare_file (name : String) : Bare (file name) := by
  refine Bare.modifyGet fun p => ?_
  split
  · exact ⟨rfl, Nat.le_refl _⟩
  · simp [Program.syntaxOf, Program.decls]

theorem bare_position (text : String) (inherited : Option FileId) : Bare (position text inherited) := by
  unfold position
  split
  · exact Bare.throw _
  · exact Bare.bind (bare_file _) fun _ => Bare.pure _
  · split
    · exact Bare.pure _
    · exact Bare.throw _

theorem bare_position? (text : Option String) : Bare (position? text) :=
  Bare.option_mapM (fun text => bare_position text none) text

/-- To read a type leaves the syntax alone, however far it gets. -/
theorem bare_parseType (text : String) : Bare (parseType text) := by
  intro forest files p hp
  unfold parseType
  cases TypeTable.parse text p.types <;> exact hp

theorem bare_setUnderlying (id underlying : TypeId) : Bare (setUnderlying id underlying) := by
  unfold setUnderlying
  refine Bare.bind Bare.get fun p => ?_
  dsimp only
  split
  · exact Bare.throw _
  · split
    · exact Bare.throw _
    · exact Bare.modifyGet fun _ => ⟨rfl, Nat.le_refl _⟩

theorem bare_object (obj : Object) : Bare (object obj) := by
  intro forest files p hp
  rw [object, get_bind]
  cases p.lookupObject? obj.key <;> exact hp

/-- To declare a method leaves the syntax alone. -/
theorem bare_method (recv : TypeId) (name : String) (sig : TypeId) : Bare (method recv name sig) := by
  unfold method
  refine Bare.bind Bare.get fun p => ?_
  dsimp only
  split
  · exact Bare.throw _
  · exact Bare.bind (bare_object _) fun _ => Bare.bind (Bare.modifyGet fun _ => ⟨rfl, Nat.le_refl _⟩) fun _ =>
      Bare.pure _

/-- To give a node a type leaves its syntax alone. -/
theorem bare_setType (n : NodeId) (type : TypeId) : Bare (setType n type) := by
  refine Bare.modifyGet fun p => ?_
  have hnodes : (p.nodes.toList.modify n fun d => { d with type := some type }).map (·.node) =
      p.nodes.toList.map (·.node) := by
    refine List.ext_getElem? fun i => ?_
    rw [List.getElem?_map, List.getElem?_modify, List.getElem?_map]
    cases p.nodes.toList[i]? with
    | none => rfl
    | some d => by_cases h : n = i <;> simp [h]
  simp only [Program.syntaxOf, Program.decls, Array.toList_modify, hnodes, Nat.le_refl, and_self]

theorem bare_field (f : FieldDump) : Bare (field f) :=
  Bare.bind (bare_position? f.pos) fun _ => Bare.bind (bare_parseType f.type) fun _ => Bare.pure _

/-- To define a type leaves the syntax alone. -/
theorem bare_defineType (type : TypeDump) : Bare (defineType type) := by
  refine Bare.bind (bare_onTypes _) fun named => ?_
  split
  · refine Bare.bind (Bare.mapM _ bare_field) fun fields => ?_
    exact Bare.bind (bare_onTypes _) fun id => bare_setUnderlying named id
  · exact Bare.bind (bare_parseType _) fun id => bare_setUnderlying named id
  · exact Bare.pure _

theorem bare_params (owner : String) (texts : List String) : Bare (params owner texts) := by
  induction texts with
  | nil => exact Bare.pure _
  | cons text rest ih =>
    unfold params
    dsimp only
    split
    · split
      · exact Bare.bind (bare_parseType _) fun _ => Bare.bind (bare_onTypes _) fun _ => Bare.pure _
      · exact Bare.throw _
    · exact Bare.bind (bare_parseType _) fun _ => Bare.bind ih fun _ => Bare.pure _

/-- To make the type of a signature leaves the syntax alone. -/
theorem bare_signatureType (owner : String) (paramTexts resultTexts : List String) :
    Bare (signatureType owner paramTexts resultTexts) :=
  Bare.bind (bare_params owner paramTexts) fun _ =>
    Bare.bind (Bare.mapM _ bare_parseType) fun _ => bare_onTypes _

/-- A method of a dump leaves the syntax alone. -/
theorem bare_methodOf (named : TypeId) (owner : String) (m : MethodDump) : Bare (methodOf named owner m) := by
  have hrest : ∀ recv, Bare (do
      let sig ← signatureType (owner ++ "." ++ m.name) m.params m.results
      let _ ← method recv m.name sig) := fun recv =>
    Bare.bind (bare_signatureType _ _ _) fun sig => Bare.bind (bare_method recv m.name sig) fun _ => Bare.pure _
  unfold methodOf
  split
  · exact Bare.bind (bare_onTypes _) hrest
  · exact hrest named

theorem bare_methodsOf (type : TypeDump) : Bare (methodsOf type) :=
  Bare.bind (bare_onTypes _) fun named => Bare.forM _ fun m => bare_methodOf named type.name m

/-- A symbol of a dump leaves the syntax alone. -/
theorem bare_declareObject (obj : ObjectDump) : Bare (declareObject obj) := by
  have hrest : ∀ type, Bare (do
      let pos ← position? obj.pos
      let _ ← object ⟨obj.key, obj.name.getD (nameOfKey obj.key), obj.kind, type, none, pos⟩) := fun type =>
    Bare.bind (bare_position? _) fun pos => Bare.bind (bare_object _) fun _ => Bare.pure _
  unfold declareObject
  split
  · exact Bare.bind (Bare.map some (bare_signatureType _ _ _)) hrest
  · exact Bare.bind (Bare.map some (bare_parseType _)) hrest
  · exact hrest none

theorem bare_declareTypeOf (type : TypeDump) : Bare (declareTypeOf type) :=
  Bare.bind (bare_position? _) fun _ => Bare.bind (bare_onTypes _) fun _ => Bare.pure _

theorem bare_withType (n : NodeId) (type : Option String) : Bare (withType n type) := by
  cases type with
  | none => exact Bare.pure n
  | some text => exact Bare.bind (bare_parseType text) fun id => Bare.bind (bare_setType n id) fun _ => Bare.pure n

theorem bare_symbol (key : String) : Bare (symbol key) := by
  refine Bare.bind Bare.get fun p => ?_
  split
  · exact Bare.pure _
  · exact Bare.throw _

/-- A node that is given a type stays the node that it is. -/
theorem returns_withType (n : NodeId) (type : Option String) : Returns (withType n type) fun m => m = n := by
  cases type with
  | none => exact Ensures.pure fun _ _ => rfl
  | some text => exact returns_bind fun _ => returns_bind fun _ => Ensures.pure fun _ _ => rfl

/-- A node that is given a type waits as it did before. -/
theorem grove_withType (n : NodeId) (type : Option String) (files : Nat) (ns : List NodeId) :
    Ensures (fun p => Grove files p (n :: ns)) (withType n type) (fun m p => Grove files p (m :: ns))
      fun _ _ => True := by
  refine (((bare_withType n type).grove files (n :: ns)).and (returns_withType n type)).weaken
    (fun _ hp => hp) ?_ fun _ _ h => h
  rintro m p ⟨hp, rfl⟩
  exact hp

/-! ### Steps that add nodes -/

/-- The step adds a node, which takes the nodes in `cs` from those that wait. -/
def Gathers (cs : List NodeId) (m : Build NodeId) : Prop :=
  ∀ files ns, Ensures (fun p => Grove files p (cs ++ ns)) m (fun n p => Grove files p (n :: ns)) fun _ _ => True

/-- The step adds nodes. -/
def Scatters (m : Build (List NodeId)) : Prop :=
  ∀ files ns, Ensures (fun p => Grove files p ns) m (fun cs p => Grove files p (cs ++ ns)) fun _ _ => True

namespace Gathers

variable {cs : List NodeId}

/-- A step that leaves the syntax alone may come before one that gathers. -/
theorem after {m : Build α} {f : α → Build NodeId} (hm : Bare m) (hf : ∀ a, Gathers cs (f a)) :
    Gathers cs (m >>= f) :=
  fun files ns => Ensures.bind (hm.grove files (cs ++ ns)) fun a => hf a files ns

/-- A node that has been added is one of those that the next step may take. -/
theorem after_node {m : Build NodeId} {f : NodeId → Build NodeId} (hm : Gathers [] m)
    (hf : ∀ n, Gathers (n :: cs) (f n)) : Gathers cs (m >>= f) :=
  fun files ns => Ensures.bind (hm files (cs ++ ns)) fun n => hf n files ns

/-- Nodes that have been added are among those that the next step may take. -/
theorem after_nodes {m : Build (List NodeId)} {f : List NodeId → Build NodeId} (hm : Scatters m)
    (hf : ∀ es, Gathers (es ++ cs) (f es)) : Gathers cs (m >>= f) := by
  intro files ns
  refine Ensures.bind (hm files (cs ++ ns)) fun es => ?_
  rw [← List.append_assoc]
  exact hf es files ns

theorem after_list {m : Build (List NodeId)} {f : List NodeId → Build NodeId} (hm : Scatters m)
    (hf : ∀ es, Gathers es (f es)) : Gathers [] (m >>= f) :=
  after_nodes hm fun es => (List.append_nil es).symm ▸ hf es

/-- A node takes its children, in any order; for selectors more is to be said, as what they select is an identifier. -/
theorem addNode (node : Node) (h : node.children.Perm cs) (pos : Pos) (type : Option TypeId)
    (hnode : ∀ x sel, node ≠ .selector x sel := by simp) : Gathers cs (addNode node pos type) :=
  fun _ ns => Ensures.modifyGet fun _ hp =>
    (hp.perm (h.append_right ns)).push (fun x sel heq => absurd heq (hnode x sel)) pos type

/-- A node may be given a type when it has been added. -/
theorem withType {m : Build NodeId} (h : Gathers cs m) (type : Option String) :
    Gathers cs (m >>= fun n => withType n type) :=
  fun files ns => Ensures.bind (h files ns) fun n => grove_withType n type files ns

end Gathers

theorem Scatters.nil : Scatters (pure []) := fun _ _ => Ensures.pure fun _ hp => hp

/-- Nodes are added one by one, and all of them wait. -/
theorem Scatters.cons {m : Build NodeId} {rest : Build (List NodeId)} (hm : Gathers [] m) (hrest : Scatters rest) :
    Scatters (do return (← m) :: (← rest)) := by
  intro files ns
  refine Ensures.bind (hm files ns) fun n => Ensures.bind (hrest files (n :: ns)) fun cs => Ensures.pure fun p hp => ?_
  exact hp.perm List.perm_middle.symm

theorem Scatters.mapM {f : α → Build NodeId} (l : List α) (h : ∀ a, Gathers [] (f a)) : Scatters (l.mapM f) := by
  intro files ns
  refine Ensures.mapM (J := fun bs p => Grove files p (bs ++ ns)) ?_ []
  intro bs a _
  refine (h a files (bs ++ ns)).weaken (fun _ hp => hp) (fun n p hp => hp.perm ?_) fun _ _ h => h
  rw [List.append_assoc]
  exact List.perm_middle

theorem gathers_ident (name : String) (obj : Option ObjId) (isDef : Bool) (pos : Pos) :
    Gathers [] (ident name obj isDef pos) :=
  .after Bare.get fun _ => .addNode (.ident name obj isDef) (.refl _) pos _

/-- The selected name is an identifier. -/
theorem grove_selector (x sel : NodeId) (files : Nat) (ns : List NodeId) :
    Ensures (fun p => Grove files p (sel :: x :: ns) ∧ p.IsIdent sel) (selector x sel)
      (fun n p => Grove files p (n :: ns)) fun _ _ => True := by
  rintro p ⟨hp, hsel⟩
  have hselected : ∀ x' sel', Node.selector x sel = .selector x' sel' → p.IsIdent sel' := by
    rintro x' sel' ⟨⟩
    exact hsel
  exact (hp.perm (.swap sel x ns)).push hselected _ _

/-- A call takes its arguments and what it calls. -/
theorem gathers_call (callee : NodeId) (args : List NodeId) (spread : Bool) :
    Gathers (args ++ [callee]) (call callee args spread) :=
  .after Bare.get fun _ => .addNode (.call callee args spread) (List.perm_append_singleton callee args).symm _ _

theorem gathers_keyValue (key value : NodeId) : Gathers [value, key] (keyValue key value) :=
  .after Bare.get fun _ => .addNode (.keyValue key value) (.swap value key []) _ _

theorem gathers_literal (kind : LiteralKind) (raw : String) (pos : Pos) : Gathers [] (literal kind raw pos) :=
  .after (bare_onTypes _) fun _ => .addNode (.literal kind raw) (.refl _) pos _

theorem bare_unaryType (op : String) (type : TypeId) : Bare (unaryType op type) := by
  unfold unaryType
  split
  · exact Bare.bind (bare_onTypes _) fun _ => Bare.pure _
  · split
    · refine Bare.bind Bare.get fun p => ?_
      split <;> exact Bare.pure _
    · exact Bare.pure _

/-- A unary node takes its operand. -/
theorem gathers_unary (op : String) (x : NodeId) (pos : Pos) : Gathers [x] (unary op x pos) := by
  have hnode : ∀ type, Gathers [x] (addNode (.unary op x) pos type) :=
    .addNode (.unary op x) (.refl _) pos
  unfold unary
  refine .after Bare.get fun p => ?_
  split
  · exact .after (bare_unaryType op _) hnode
  · exact hnode none

/-- An assignment takes its targets and its values. -/
theorem gathers_assign (lhs rhs : List NodeId) (define : Bool) : Gathers (rhs ++ lhs) (assign lhs rhs define) :=
  .after Bare.get fun _ => .addNode (.assign lhs rhs define) List.perm_append_comm _ _

theorem gathers_valueDecl (names values : List NodeId) : Gathers (values ++ names) (valueDecl names values) :=
  .after Bare.get fun _ => .addNode (.valueDecl names values) List.perm_append_comm _ _

theorem gathers_identNode (file : FileId) (i : IdentDump) (isDef : Bool) : Gathers [] (identNode file i isDef) :=
  .after (Bare.option_mapM bare_symbol i.obj) fun obj => .after (bare_position _ _) fun pos =>
    .withType (gathers_ident i.name obj isDef pos) i.type

/-- The node of an identifier is an identifier, as the selectors that take it rely on. -/
theorem isIdent_identNode (file : FileId) (i : IdentDump) (isDef : Bool) :
    Ensures (fun _ => True) (identNode file i isDef) (fun n p => p.IsIdent n) fun _ _ => True := by
  refine ensures_bind fun obj => ensures_bind fun pos => ?_
  refine Ensures.bind (R := fun n p => p.IsIdent n) ?_ fun n => ?_
  · exact fun p _ => ⟨i.name, obj, isDef, by simp [Program.node?]⟩
  · refine Ensures.intro (fun p m q hn hrun => ?_) fun _ _ _ _ _ => trivial
    rw [(returns_withType n i.type).of_ok trivial hrun]
    exact (bare_withType n i.type).isIdent hn hrun

mutual

/-- Adding a tree adds one node that waits, by recursion on the tree: what waits in between are its subtrees. -/
theorem gathers_tree (file : FileId) : ∀ node : NodeDump, Gathers [] (tree file node)
  | .ident i => by
    rw [tree]
    exact gathers_identNode file i _
  | .selector x sel type => by
    rw [tree]
    refine .after_node (gathers_tree file x) fun x files ns => ?_
    refine Ensures.bind (R := fun sel p => Grove files p (sel :: x :: ns) ∧ p.IsIdent sel) ?_ fun sel =>
      Ensures.bind (grove_selector x sel files ns) fun n => grove_withType n type files ns
    exact (gathers_identNode file sel _ files (x :: ns)).and (isIdent_identNode file sel _)
  | .call callee args spread type => by
    rw [tree]
    refine .after_node (gathers_tree file callee) fun callee => ?_
    refine .after_nodes (gathers_trees file args) fun args => ?_
    exact .withType (gathers_call callee args spread) type
  | .composite type elts pos => by
    rw [tree]
    refine .after (bare_parseType type) fun type => .after_list (gathers_trees file elts) fun elts => ?_
    exact .after (bare_position _ _) fun pos => .addNode (.composite elts) (.refl _) pos _
  | .keyValue key value => by
    rw [tree]
    refine .after_node (gathers_tree file key) fun key => .after_node (gathers_tree file value) fun value => ?_
    exact gathers_keyValue key value
  | .literal kind raw pos => by
    rw [tree]
    exact .after (bare_position _ _) fun pos => gathers_literal kind raw pos
  | .unary op x pos => by
    rw [tree]
    refine .after_node (gathers_tree file x) fun x => .after (bare_position _ _) fun pos => ?_
    exact gathers_unary op x pos
  | .block stmts pos => by
    rw [tree]
    refine .after_list (gathers_trees file stmts) fun stmts => ?_
    exact .after (bare_position _ _) fun pos => .addNode (.block stmts) (.refl _) pos _
  | .assign lhs rhs define => by
    rw [tree]
    refine .after_list (gathers_trees file lhs) fun lhs => .after_nodes (gathers_trees file rhs) fun rhs => ?_
    exact gathers_assign lhs rhs define
  | .valueDecl names values => by
    rw [tree]
    refine .after_list (.mapM names fun i => gathers_identNode file i true) fun names => ?_
    exact .after_nodes (gathers_trees file values) fun values => gathers_valueDecl names values
  | .other label children pos => by
    rw [tree]
    refine .after_list (gathers_trees file children) fun children => ?_
    exact .after (bare_position _ _) fun pos => .addNode (.other label children) (.refl _) pos _

/-- Adding trees adds one node that waits for each. -/
theorem gathers_trees (file : FileId) : ∀ nodes : List NodeDump, Scatters (trees file nodes)
  | [] => by
    rw [trees]
    exact .nil
  | node :: rest => by
    rw [trees]
    exact .cons (gathers_tree file node) (gathers_trees file rest)

end

/-! ### Declarations -/

private theorem flatMap_modify_decls {files : List SourceFile} {file : Nat} (h : file < files.length) (n : NodeId) :
    ((files.modify file fun f => { f with decls := f.decls ++ [n] }).flatMap (·.decls)).Perm
      (n :: files.flatMap (·.decls)) := by
  induction files generalizing file with
  | nil => exact absurd h (Nat.not_lt_zero file)
  | cons f files ih =>
    cases file with
    | zero =>
      rw [List.modify_zero_cons, List.flatMap_cons, List.flatMap_cons, List.append_assoc]
      exact List.perm_middle
    | succ file =>
      rw [List.modify_succ_cons, List.flatMap_cons, List.flatMap_cons]
      exact ((ih (Nat.lt_of_succ_lt_succ h)).append_left f.decls).trans List.perm_middle

/-- A node that waits becomes a declaration of a file that is there. -/
theorem grove_pushDecl {files file : Nat} (h : file < files) (n : NodeId) (ns : List NodeId) :
    Ensures (fun p => Grove files p (n :: ns)) (pushDecl file n) (fun _ p => Grove files p ns) fun _ _ => True := by
  refine Ensures.modifyGet fun p hp => hp.pushDecl (by simp) ?_
  simpa only [Program.decls, Array.toList_modify] using
    flatMap_modify_decls (by simpa using Nat.lt_of_lt_of_le h hp.files) n

theorem grove_file (name : String) (ns : List NodeId) :
    Ensures (fun p => Grove 0 p ns) (file name) (fun id p => Grove (id + 1) p ns) fun _ _ => True := by
  refine Ensures.intro (fun p id q hp hrun => ?_) fun _ _ _ _ _ => trivial
  refine hp.of_syntaxOf_eq ((bare_file name p.syntaxOf 0).of_ok ⟨rfl, Nat.zero_le _⟩ hrun).1 ?_
  have hlt : Ensures (fun _ => True) (file name) (fun id p => id < p.files.size) fun _ _ => True := by
    refine Ensures.modifyGet fun p _ => ?_
    split
    · rename_i id hid
      exact (Array.findIdx?_eq_some_iff_getElem.1 hid).1
    · simp
  exact hlt.of_ok trivial hrun

/-- The declarations of a file leave no node waiting that did not wait before. -/
theorem grove_declsOf (f : FileDump) (ns : List NodeId) :
    Ensures (fun p => Grove 0 p ns) (declsOf f) (fun _ p => Grove 0 p ns) fun _ _ => True := by
  refine Ensures.bind (grove_file f.name ns) fun id => ?_
  have hdecls : Ensures (fun p => Grove (id + 1) p ns) (f.decls.forM fun decl => do pushDecl id (← tree id decl))
      (fun _ p => Grove (id + 1) p ns) fun _ _ => True :=
    Ensures.forM fun decl _ =>
      Ensures.bind (gathers_tree id decl (id + 1) ns) fun n => grove_pushDecl (Nat.lt_succ_self id) n ns
  exact hdecls.weaken (fun _ hp => hp) (fun _ _ hp => { hp with files := Nat.zero_le _ }) fun _ _ h => h

/-- A merge leaves a grove in which no node waits. -/
theorem grove_dumps (ds : List PackageDump) :
    Ensures (fun p => Grove 0 p []) (dumps ds) (fun _ p => Grove 0 p []) fun _ _ => True := by
  have hfiles : Bare (((ds.flatMap (·.files)).forM fun f => do let _ ← file f.name)) :=
    Bare.forM _ fun f => Bare.bind (bare_file f.name) fun _ => Bare.pure _
  unfold dumps
  refine Ensures.bind (hfiles.grove 0 []) fun _ => ?_
  refine Ensures.bind ((Bare.forM _ bare_declareTypeOf).grove 0 []) fun _ => ?_
  refine Ensures.bind ((Bare.forM _ bare_defineType).grove 0 []) fun _ => ?_
  refine Ensures.bind ((Bare.forM _ bare_methodsOf).grove 0 []) fun _ => ?_
  refine Ensures.bind ((Bare.forM _ bare_declareObject).grove 0 []) fun _ => ?_
  exact Ensures.forM fun f _ => grove_declsOf f []

end Build

/-- Dumps give a program if merging them into the empty one does. -/
theorem Program.ofDumps_eq_ok_iff {ds : List PackageDump} {q : Program} :
    Program.ofDumps ds = .ok q ↔ Build.dumps ds {} = .ok ⟨⟩ q := by
  unfold ofDumps
  split <;> rename_i h <;> simp [h]

theorem Program.grove_of_ofDumps {ds : List PackageDump} {p : Program} (h : Program.ofDumps ds = .ok p) :
    Grove 0 p [] :=
  (Build.grove_dumps ds).of_ok Grove.empty (ofDumps_eq_ok_iff.1 h)

/-- A program that dumps describe is a forest. -/
theorem Program.isForest_of_ofDumps {ds : List PackageDump} {p : Program} (h : Program.ofDumps ds = .ok p) :
    p.IsForest :=
  (grove_of_ofDumps h).isForest

/-- Every node of a program that dumps describe belongs to a declaration. -/
theorem Program.complete_of_ofDumps {ds : List PackageDump} {p : Program} (h : Program.ofDumps ds = .ok p) :
    p.Complete :=
  (grove_of_ofDumps h).complete

/-- The dump of `Program.sample`. -/
def PackageDump.sample : PackageDump where
  files := [{
    name := "a"
    decls := [
      .call (.selector
        (.call (.selector
          (.call (.selector (.ident { name := "q", obj := "q", pos := "1:1" })
              { name := "From", obj := "(Query).From", pos := "1:3" } none)
            [.composite "User" [] "1:8"] false none)
          { name := "In", obj := "(Query).In", pos := "1:16" } none)
          [.literal .string "\"Home\"" "1:19"] false none)
        { name := "Pick", obj := "(Query).Pick", pos := "1:27" } none)
        [.literal .string "\"Zip\"" "1:32"] false none] }]
  types := [
    { name := "User", fields := some [{ name := "Home", type := "Address" }] },
    { name := "Address", pos := "a:2:6", fields := some [{ name := "City", type := "Name" }] },
    { name := "Name", underlying := "string" },
    { name := "Query", methods := [
      { name := "From", params := ["User"], results := ["Query"] },
      { name := "In", params := ["Name"], results := ["Query"] },
      { name := "Pick", params := ["Name"], results := ["Query"] }] }]
  objects := [{ key := "q", kind := .var, type := "Query" }, { key := "offsetof", kind := .builtin }]

/-- The sample dump describes the sample program. -/
theorem Program.ofDumps_sample : Program.ofDumps [.sample] = .ok .sample := by
  decide +kernel

end FluentChain
