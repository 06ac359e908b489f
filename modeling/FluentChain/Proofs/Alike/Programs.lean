import FluentChain.Chain.Walk
import FluentChain.Proofs.Alike.Types
import FluentChain.Proofs.Merge.Describes

/-!
# Programs that are alike

Two programs are alike if they say the same, whatever the numbers of their types and symbols (`Program.Alike`):
their type tables are alike, symbols are the same if they have one key, and node for node they have the same
syntax at the same position.  The files that hold syntax come first in both and in the same order; of other files
only the names matter, and these may come in any order.
-/

namespace FluentChain

/-- The names of the files of two programs: first those that both of them list, then the others of each. -/
structure FileNames where
  shared : List String
  left : List String
  right : List String

/-- The position `a` of the one program is the position `b` of the other. -/
structure FileNames.SamePlace (N : FileNames) (a b : Pos) : Prop where
  line : a.line = b.line
  col : a.col = b.col
  file : ∃ name, (N.shared ++ N.left)[a.file]? = some name ∧ (N.shared ++ N.right)[b.file]? = some name

namespace Program

section

variable (N : FileNames) (p q : Program)

abbrev SameType : TypeId → TypeId → Prop := TypeTable.SameType N.SamePlace p.types q.types

/-- Both numbers are those of the symbol with some key. -/
def SameSymbol (o o' : ObjId) : Prop := ∃ key, p.key? o = some key ∧ q.key? o' = some key

structure SameObject (obj obj' : Object) : Prop where
  key : obj.key = obj'.key
  kind : obj.kind = obj'.kind
  type : Option.Rel (SameType N p q) obj.type obj'.type
  recv : Option.Rel (p.types.SameShape q.types) obj.recv obj'.recv

inductive SameSyntax : Node → Node → Prop
  | ident (name : String) {o o' : Option ObjId} (h : Option.Rel (p.SameSymbol q) o o') (isDef : Bool) :
    SameSyntax (.ident name o isDef) (.ident name o' isDef)
  | other {node : Node} (h : ∀ name o isDef, node ≠ .ident name o isDef) : SameSyntax node node

structure SameNode (d d' : NodeData) : Prop where
  node : SameSyntax p q d.node d'.node
  pos : d.pos = d'.pos
  file : d.pos.file < N.shared.length
  type : Option.Rel (SameType N p q) d.type d'.type

/-- The shared files have the same declarations, and the other files have none. -/
def SameFiles : Prop :=
  ∃ fs : List SourceFile, fs.map (·.name) = N.shared ∧ p.files.toList = fs ++ N.left.map (⟨·, []⟩) ∧
    q.files.toList = fs ++ N.right.map (⟨·, []⟩)

/-- The programs `p` and `q` say the same. -/
structure Alike : Prop where
  files : SameFiles N p q
  types : p.types.Alike N.SamePlace q.types
  keys : ∀ key, (∃ o, p.key? o = some key) ↔ ∃ o, q.key? o = some key
  left_unique : ∀ {a b : ObjId} {key : String}, p.key? a = some key → p.key? b = some key → a = b
  right_unique : ∀ {a b : ObjId} {key : String}, q.key? a = some key → q.key? b = some key → a = b
  objects : ∀ {o o' : ObjId} {obj obj' : Object}, p.object? o = some obj → q.object? o' = some obj' →
    obj.key = obj'.key → SameObject N p q obj obj'
  nodes : List.Forall₂ (SameNode N p q) p.nodes.toList q.nodes.toList

end

variable {N : FileNames} {p q : Program} {o o' c c' : ObjId}

namespace Alike

variable (h : Alike N p q)

include h

/-! ### Symbols -/

/-- Symbols are compared alike in both programs. -/
theorem symbol_eq_iff (ho : p.SameSymbol q o o') (hc : p.SameSymbol q c c') : o = c ↔ o' = c' := by
  obtain ⟨key, ho, ho'⟩ := ho
  obtain ⟨key', hc, hc'⟩ := hc
  constructor
  · rintro rfl
    obtain rfl : key = key' := Option.some.inj (ho.symm.trans hc)
    exact h.right_unique ho' hc'
  · rintro rfl
    obtain rfl : key = key' := Option.some.inj (ho'.symm.trans hc')
    exact h.left_unique ho hc

theorem object? (ho : p.SameSymbol q o o') : Option.Rel (SameObject N p q) (p.object? o) (q.object? o') := by
  obtain ⟨key, ho, ho'⟩ := ho
  obtain ⟨obj, hobj, hkey⟩ := Option.map_eq_some_iff.1 ho
  obtain ⟨obj', hobj', hkey'⟩ := Option.map_eq_some_iff.1 ho'
  rw [hobj, hobj']
  exact .some (h.objects hobj hobj' (hkey.trans hkey'.symm))

/-- Symbols that are the same have types of one shape. -/
theorem objectType? (ho : p.SameSymbol q o o') :
    Option.Rel (SameType N p q) (p.objectType? o) (q.objectType? o') :=
  rel_bind (h.object? ho) fun _ _ hobj => hobj.type

omit h in
/-- In a program whose keys are unique, a key leads to the symbol that has it. -/
theorem lookupObject?_eq_some_iff {p : Program} {key : String} {o : ObjId}
    (hunique : ∀ {a b : ObjId} {key : String}, p.key? a = some key → p.key? b = some key → a = b) :
    p.lookupObject? key = some o ↔ p.key? o = some key := by
  have hkey : ∀ o, p.lookupObject? key = some o → p.key? o = some key := by
    intro o ho
    obtain ⟨hlt, hkey, -⟩ := Array.findIdx?_eq_some_iff_getElem.1 ho
    simp [key?, Program.object?, hlt, eq_of_beq hkey]
  refine ⟨hkey o, fun ho => ?_⟩
  cases hlookup : p.lookupObject? key with
  | none =>
    obtain ⟨obj, hobj, hobjKey⟩ := Option.map_eq_some_iff.1 ho
    have hne := Array.findIdx?_eq_none_iff.1 hlookup obj (Array.mem_of_getElem? hobj)
    simp [hobjKey] at hne
  | some other => rw [hunique (hkey other hlookup) ho]

/-- A key leads to the same symbol in both programs, or to none. -/
theorem lookupObject? (key : String) : Option.Rel (p.SameSymbol q) (p.lookupObject? key) (q.lookupObject? key) := by
  have hp : ∀ o, p.lookupObject? key = some o ↔ p.key? o = some key := fun _ => lookupObject?_eq_some_iff h.left_unique
  have hq : ∀ o, q.lookupObject? key = some o ↔ q.key? o = some key := fun _ => lookupObject?_eq_some_iff h.right_unique
  cases hx : p.lookupObject? key with
  | none =>
    cases hy : q.lookupObject? key with
    | none => exact .none
    | some o' =>
      obtain ⟨o, ho⟩ := (h.keys key).2 ⟨o', (hq o').1 hy⟩
      exact absurd ((hp o).2 ho) (by simp [hx])
  | some o =>
    obtain ⟨o', ho'⟩ := (h.keys key).1 ⟨o, (hp o).1 hx⟩
    rw [(hq o').2 ho']
    exact .some ⟨key, (hp o).1 hx, ho'⟩

/-! ### Syntax -/

theorem node (n : NodeId) : Option.Rel (SameNode N p q) p.nodes[n]? q.nodes[n]? := by
  rw [← Array.getElem?_toList, ← Array.getElem?_toList]
  exact rel_getElem? h.nodes n

/-- Nodes with one number have the same syntax in both programs. -/
theorem node? (n : NodeId) : Option.Rel (SameSyntax p q) (p.node? n) (q.node? n) :=
  rel_map (h.node n) fun _ _ hd => hd.node

theorem pos (n : NodeId) : p.pos n = q.pos n := by
  unfold Program.pos
  rw [map_eq_of_rel (h.node n) fun _ _ hd => hd.pos.symm]

/-- Nodes stand in the files that both programs have, not in one that only one of them has. -/
theorem file_lt (hN : 0 < N.shared.length) (n : NodeId) : (p.pos n).file < N.shared.length := by
  have hn := h.node n
  unfold Program.pos
  revert hn
  generalize p.nodes[n]? = x, q.nodes[n]? = y
  rintro (hd | _)
  · exact hd.file
  · exact hN

theorem type? (n : NodeId) : Option.Rel (SameType N p q) (p.type? n) (q.type? n) :=
  rel_bind (h.node n) fun _ _ hd => hd.type

/-- Nodes differ in the symbols of identifiers only. -/
theorem node?_eq_or_ident (n : NodeId) : p.node? n = q.node? n ∨
    ∃ name o o' isDef, p.node? n = some (.ident name o isDef) ∧ q.node? n = some (.ident name o' isDef) := by
  have hn := h.node? n
  revert hn
  generalize p.node? n = x, q.node? n = y
  rintro (hd | _)
  · cases hd with
    | ident name ho isDef => exact Or.inr ⟨name, _, _, isDef, rfl, rfl⟩
    | other => exact Or.inl rfl
  · exact Or.inl rfl

/-- Nodes have the same children. -/
theorem children (n : NodeId) : p.children n = q.children n := by
  unfold Program.children
  rcases h.node?_eq_or_ident n with heq | ⟨name, o, o', isDef, hp, hq⟩
  · rw [heq]
  · rw [hp, hq]
    rfl

theorem subnodes (n : NodeId) : p.subnodes n = q.subnodes n := by
  unfold Program.subnodes
  rw [h.children]

theorem isCall (n : NodeId) : p.isCall n = q.isCall n := by
  unfold Program.isCall
  rcases h.node?_eq_or_ident n with heq | ⟨name, o, o', isDef, hp, hq⟩
  · rw [heq]
  · rw [hp, hq]

/-- A node is the same method call in both programs. -/
theorem methodCall? (n : NodeId) : p.methodCall? n = q.methodCall? n := by
  unfold Program.methodCall?
  rcases h.node?_eq_or_ident n with heq | ⟨name, o, o', isDef, hp, hq⟩
  · rw [heq]
    split
    · rename_i callee _ _ _
      rcases h.node?_eq_or_ident callee with heq | ⟨name, o, o', isDef, hp, hq⟩
      · rw [heq]
      · rw [hp, hq]
    · rfl
  · rw [hp, hq]

/-- An identifier stands for the same symbol in both programs. -/
theorem identObject? (n : NodeId) : Option.Rel (p.SameSymbol q) (p.identObject? n) (q.identObject? n) := by
  induction n using Nat.strongRecOn with
  | _ n ih =>
    have hn := h.node? n
    rw [Program.identObject?, Program.identObject?]
    revert hn
    generalize p.node? n = x, q.node? n = y
    rintro (hd | _)
    · cases hd with
      | ident name ho isDef => exact ho
      | other hnode =>
        rename_i node
        cases node with
        | selector x sel =>
          dsimp only
          split
          · rename_i hlt
            exact ih sel hlt
          · exact .none
        | ident name o isDef => exact absurd rfl (hnode name o isDef)
        | _ => exact .none
    · exact .none

/-- A call has signatures that are the same but for the numbers of their types. -/
theorem calleeSignature? (n : NodeId) :
    Option.Rel (p.types.SameSignature q.types) (p.calleeSignature? n) (q.calleeSignature? n) := by
  unfold Program.calleeSignature?
  rcases h.node?_eq_or_ident n with heq | ⟨name, o, o', isDef, hp, hq⟩
  · rw [heq]
    split
    · exact rel_bind (h.type? _) fun _ _ ht => h.types.signature? ht
    · exact .none
  · rw [hp, hq]
    exact .none

theorem decls : p.decls = q.decls := by
  obtain ⟨fs, -, hp, hq⟩ := h.files
  have hbare : ∀ names : List String, (names.map (SourceFile.mk · [])).flatMap (·.decls) = [] := fun names => by simp
  rw [Program.decls, Program.decls, hp, hq, List.flatMap_append, List.flatMap_append, hbare, hbare]

end Alike

/-! ### Programs that grow -/

variable {p' q' : Program}

theorem GrowsTo.refl (p : Program) : p.GrowsTo p := ⟨.refl _, List.prefix_refl _, List.prefix_refl _⟩

theorem GrowsTo.of_nodes (p : Program) (nodes : Array NodeData) : p.GrowsTo { p with nodes } :=
  ⟨.refl _, List.prefix_refl _, List.prefix_refl _⟩

theorem GrowsTo.trans {r : Program} (h : p.GrowsTo q) (h' : q.GrowsTo r) : p.GrowsTo r :=
  ⟨h.types.trans h'.types, h.files.trans h'.files, h.objects.trans h'.objects⟩

/-- Symbols that are the same stay the same when both programs grow. -/
theorem SameSymbol.mono (h : p.SameSymbol q o o') (hp : p.GrowsTo p') (hq : q.GrowsTo q') : p'.SameSymbol q' o o' := by
  obtain ⟨key, ho, ho'⟩ := h
  refine ⟨key, ?_, ?_⟩
  · rw [hp.key?_eq (lt_size_of_key? ho), ho]
  · rw [hq.key?_eq (lt_size_of_key? ho'), ho']

/-- Syntax that is the same stays the same when both programs grow. -/
theorem SameSyntax.mono {node node' : Node} (h : SameSyntax p q node node') (hp : p.GrowsTo p') (hq : q.GrowsTo q') :
    SameSyntax p' q' node node' := by
  cases h with
  | ident name ho isDef => exact .ident name (rel_imp ho fun _ _ ho => ho.mono hp hq) isDef
  | other hnode => exact .other hnode

theorem SameNode.mono {d d' : NodeData} (h : SameNode N p q d d') (hp : p.GrowsTo p') (hq : q.GrowsTo q') :
    SameNode N p' q' d d' :=
  ⟨h.node.mono hp hq, h.pos, h.file, rel_imp h.type fun _ _ ht => ht.mono hp.types hq.types⟩

theorem SameObject.mono {obj obj' : Object} (h : SameObject N p q obj obj') (hp : p.GrowsTo p') (hq : q.GrowsTo q') :
    SameObject N p' q' obj obj' :=
  ⟨h.key, h.kind, rel_imp h.type fun _ _ ht => ht.mono hp.types hq.types,
    rel_imp h.recv fun _ _ ht => ht.mono hp.types hq.types⟩

/-- Programs stay alike when syntax is added to them. -/
theorem Alike.grow (h : Alike N p q) (hp : p.GrowsTo p') (hq : q.GrowsTo q') (hobjects : p'.objects = p.objects)
    (hobjects' : q'.objects = q.objects) (hfiles : SameFiles N p' q') (htypes : p'.types.Alike N.SamePlace q'.types)
    (hnodes : List.Forall₂ (SameNode N p' q') p'.nodes.toList q'.nodes.toList) : Alike N p' q' := by
  have hleft : ∀ o, p'.object? o = p.object? o := fun o => by rw [Program.object?, Program.object?, hobjects]
  have hright : ∀ o, q'.object? o = q.object? o := fun o => by rw [Program.object?, Program.object?, hobjects']
  have hkey : ∀ o, p'.key? o = p.key? o := fun o => by rw [key?, key?, hleft]
  have hkey' : ∀ o, q'.key? o = q.key? o := fun o => by rw [key?, key?, hright]
  -- symbols are as they were, and only what is said of their types has to be carried over
  refine ⟨hfiles, htypes, fun key => ?_, fun ha hb => ?_, fun ha hb => ?_, fun hobj hobj' hkeys => ?_, hnodes⟩
  · simp only [hkey, hkey', h.keys]
  · rw [hkey] at ha hb
    exact h.left_unique ha hb
  · rw [hkey'] at ha hb
    exact h.right_unique ha hb
  · rw [hleft] at hobj
    rw [hright] at hobj'
    exact (h.objects hobj hobj' hkeys).mono hp hq

end Program

end FluentChain
