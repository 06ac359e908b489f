import FluentChain.Proofs.Build.Dumped
import FluentChain.Proofs.Build.Operation
import FluentChain.Proofs.Build.Padding
import FluentChain.Proofs.Syntax.Graft
import FluentChain.Proofs.Type.Grammar

/-!
# Types of nodes

A node is given its type when it is added, by what is known then: symbols, types, and the types that its children have.
All this is still so when the program is finished, as only entries are added behind those that there are
(`Program.HasType.mono`).  So it makes no difference whether a type is derived at once or in the end.

What a step adds is described by the dumps of its nodes, in the order in which they are added (`Build.Appends`), with
one rule for each way of putting steps together.
-/

namespace FluentChain

/-- The type that is written for a node. -/
def NodeDump.writtenType? : NodeDump → Option String
  | .ident i => i.type
  | .selector _ _ type | .call _ _ _ type => type
  | .composite type _ _ => some type
  | _ => none

/-! ### What types follow -/

namespace TypeTable

variable {t u : TypeTable} {text : String} {ty : Ty} {a b id : TypeId}

/-- The text is a type expression, and it stands for the type `id`. -/
def Means (t : TypeTable) (text : String) (id : TypeId) : Prop := ∃ e, t.Derives text.toList e ∧ t.Denotes e id

theorem Means.mono (h : t.Means text id) (hgrow : t.GrowsTo u) : u.Means text id := by
  obtain ⟨e, htext, hid⟩ := h
  exact ⟨e, htext.mono hgrow, hid.mono hgrow⟩

/-- A text denotes one type of the table at most. -/
theorem Means.unique (ht : t.WellFormed) (ha : t.Means text a) (hb : t.Means text b) : a = b := by
  obtain ⟨e, htext, ha⟩ := ha
  obtain ⟨e', htext', hb⟩ := hb
  exact ha.id_unique ht (htext.unique htext' ▸ hb)

theorem Means.iff_eq (ht : t.WellFormed) (h : t.Means text id) (other : TypeId) : t.Means text other ↔ other = id := by
  refine ⟨fun hother => hother.unique ht h, ?_⟩
  rintro rfl
  exact h

/-- A text that is parsed denotes the type that it gives, in the table that it may have added to. -/
theorem means_of_parse (h : TypeTable.parse text t = .ok id u) : t.Gains u ∧ u.Means text id := by
  obtain ⟨declared, hdeclares⟩ := exists_declares t
  obtain ⟨hknown, hgains, hid⟩ := (resolves (TypeExpr.parse text.toList) hdeclares).of_ok rfl h
  exact ⟨hgains, _, (derives_parse hdeclares hknown).mono hgains.growsTo, hid⟩

/-- The type has one entry, and that is `id`. -/
def Interned (t : TypeTable) (ty : Ty) (id : TypeId) : Prop := ∀ other, t.get? other = some ty ↔ other = id

theorem interned_of_get? (ht : t.WellFormed) (hty : ty.IsShared) (hid : t.get? id = some ty) : t.Interned ty id := by
  refine fun other => ⟨fun hother => ht.shared hother hid hty, ?_⟩
  rintro rfl
  exact hid

/-- The type that a pointer points to. -/
def pointee? (t : TypeTable) (id : TypeId) : Option TypeId :=
  match t.get? id with
  | some (.pointer elem) => some elem
  | _ => none

/-- The type of the field with a name in the struct of a type, or of what the type points to. -/
def fieldType? (t : TypeTable) (base : TypeId) (name : String) : Option TypeId :=
  t.selectWithin name maxSelectionDepth ((t.pointee? base).getD base)

theorem selectField?_eq_fieldType? (t : TypeTable) (base : TypeId) (name : String) :
    t.selectField? base name = t.fieldType? base name := by
  unfold selectField? fieldType? pointee?
  refine congrArg (t.selectWithin name maxSelectionDepth) ?_
  cases t.get? base with
  | none => rfl
  | some ty => cases ty <;> rfl

theorem isPrefix_of_extends (h : t.Extends u) : t.entries.toList <+: u.entries.toList := by
  refine List.prefix_iff_getElem?.2 fun i hi => ?_
  have hold : t.get? i = some t.entries[i] := Array.getElem?_eq_getElem (by simpa using hi)
  simpa [TypeTable.get?] using h.get? hold

end TypeTable

namespace Program

variable {p q : Program} {node : Node} {type : Option TypeId}

/-- The type of `op x`, where `x` is of the type `type`. -/
def UnaryType (p : Program) (op : String) (type : TypeId) (result : Option TypeId) : Prop :=
  if op = "&" then ∃ id, result = some id ∧ p.types.Interned (.pointer type) id
  else if op = "*" then result = p.types.pointee? type
  else result = some type

/-- The name of an identifier. -/
def identName? (p : Program) (n : NodeId) : Option String :=
  match p.node? n with
  | some (.ident name _ _) => some name
  | _ => none

/-- The type of a selection is looked up by the name that is selected, in the type of its base. -/
theorem selectionType?_eq (p : Program) (x sel : NodeId) : Build.selectionType? p x sel =
    (p.identName? sel).bind fun name => (p.type? x).bind fun base => p.types.fieldType? base name := by
  unfold Build.selectionType? identName?
  cases p.node? sel with
  | none => rfl
  | some node =>
    cases node with
    | ident name obj isDef =>
      simp only [Option.bind_some]
      exact Option.bind_congr fun base _ => p.types.selectField?_eq_fieldType? base name
    | _ => rfl

/-- The type is the only one that is the basic type `name`. -/
def IsBasic (p : Program) (name : String) (type : Option TypeId) : Prop :=
  ∃ id, type = some id ∧ p.types.Interned (.basic name) id

/-- The type that a node has if none is written for it.  It follows from the symbol of an identifier, from the types of
the children, or from the kind of a literal. -/
def DerivesType (p : Program) (node : Node) (type : Option TypeId) : Prop :=
  match node with
  | .ident _ obj _ => type = obj.bind p.objectType?
  | .selector x sel => type = (p.type? sel <|>
      (p.identName? sel).bind fun name => (p.type? x).bind fun base => p.types.fieldType? base name)
  | .call callee _ _ => type = ((p.type? callee).bind p.types.signature?).bind Signature.singleResult?
  | .literal .string _ => p.IsBasic "string" type
  | .literal .int _ => p.IsBasic "int" type
  | .literal .float _ => p.IsBasic "float64" type
  | .literal .char _ => p.IsBasic "rune" type
  | .literal .imag _ => p.IsBasic "complex128" type
  | .unary op x =>
    match p.type? x with
    | some operand => p.UnaryType op operand type
    | none => type = none
  | _ => type = none

/-- The basic types of literals are those that literals are given when they are added. -/
theorem derivesType_literal_iff {kind : LiteralKind} {raw : String} :
    p.DerivesType (.literal kind raw) type ↔ p.IsBasic (Build.literalType kind) type := by
  cases kind <;> exact Iff.rfl

/-- The node has exactly the type that is written for it, or else the type that is derived. -/
def HasType (p : Program) (written : Option String) (n : NodeId) : Prop :=
  ∃ node, p.node? n = some node ∧
    match written with
    | some text => ∃ id, p.type? n = some id ∧ ∀ other, p.types.Means text other ↔ other = id
    | none => p.DerivesType node (p.type? n)

/-! ### Growth -/

theorem startOf_withTypes {types : TypeTable} (h : p.types.Extends types) : p.StartOf { p with types } :=
  ⟨List.prefix_refl _, TypeTable.isPrefix_of_extends h, List.prefix_refl _⟩

theorem startOf_withFiles (p : Program) (files : Array SourceFile) : p.StartOf { p with files } :=
  ⟨List.prefix_refl _, List.prefix_refl _, List.prefix_refl _⟩

theorem startOf_pushNode (p : Program) (d : NodeData) : p.StartOf { p with nodes := p.nodes.push d } :=
  ⟨by simp, List.prefix_refl _, List.prefix_refl _⟩

theorem StartOf.node_lt (h : p.StartOf q) {n : NodeId} (hn : n < p.nodes.size) : n < q.nodes.size :=
  Nat.lt_of_lt_of_le hn h.nodes_size_le

theorem StartOf.type_lt (h : p.StartOf q) {id : TypeId} (hid : id < p.types.size) : id < q.types.size :=
  Nat.lt_of_lt_of_le hid (by simpa [TypeTable.size] using h.types.length_le)

theorem StartOf.object_lt (h : p.StartOf q) {o : ObjId} (ho : o < p.objects.size) : o < q.objects.size :=
  Nat.lt_of_lt_of_le ho (by simpa using h.objects.length_le)

theorem StartOf.growsTo (h : p.StartOf q) : p.types.GrowsTo q.types where
  unnamed hid _ := h.get?_of_eq_some hid
  named hid := ⟨_, h.get?_of_eq_some hid, rfl⟩

section

variable (h : p.StartOf q) (hp : p.WellFormed false) (hq : q.WellFormed false)

include h hq

theorem StartOf.interned {ty : Ty} {id : TypeId} (hty : ty.IsShared) (hid : p.types.Interned ty id) :
    q.types.Interned ty id :=
  TypeTable.interned_of_get? hq.table hty (h.get?_of_eq_some ((hid id).2 rfl))

theorem UnaryType.mono {op : String} {operand : TypeId} (hoperand : operand < p.types.size)
    (htype : p.UnaryType op operand type) : q.UnaryType op operand type := by
  unfold UnaryType TypeTable.pointee? at htype ⊢
  rw [h.get? hoperand]
  by_cases hop : op = "&"
  · rw [if_pos hop] at htype ⊢
    obtain ⟨id, hid, hinterned⟩ := htype
    exact ⟨id, hid, h.interned hq trivial hinterned⟩
  · rw [if_neg hop] at htype ⊢
    exact htype

include hp

/-- A type is derived alike in all that is made of the program later. -/
theorem DerivesType.mono (hchildren : ∀ c ∈ node.children, c < p.nodes.size)
    (hsymbol : ∀ o ∈ node.symbol?, o < p.objects.size) (htype : p.DerivesType node type) : q.DerivesType node type := by
  cases node with
  | ident name obj isDef =>
    have hobj : obj.bind q.objectType? = obj.bind p.objectType? :=
      Option.bind_congr fun o ho => h.objectType? (hsymbol o ho)
    exact htype.trans hobj.symm
  | selector x sel =>
    -- a field is looked for in the struct of `x` and in its embedded structs, all of which are in range
    have hx : x < p.nodes.size := hchildren x (by simp [Node.children])
    have hsel : sel < p.nodes.size := hchildren sel (by simp [Node.children])
    simp only [DerivesType, ← selectionType?_eq] at htype ⊢
    rw [h.type? hsel, h.selectionType? hp hx hsel]
    exact htype
  | call callee args spread =>
    have hcallee : callee < p.nodes.size := hchildren callee (by simp [Node.children])
    have hsig : (p.type? callee).bind q.types.signature? = (p.type? callee).bind p.types.signature? :=
      Option.bind_congr fun id hid => h.signature? hp (hp.type_lt hid)
    simp only [DerivesType] at htype ⊢
    rw [h.type? hcallee, hsig]
    exact htype
  | literal kind raw =>
    rw [derivesType_literal_iff] at htype ⊢
    obtain ⟨id, hid, hinterned⟩ := htype
    exact ⟨id, hid, h.interned hq trivial hinterned⟩
  | unary op x =>
    have hx : x < p.nodes.size := hchildren x (by simp [Node.children])
    simp only [DerivesType, h.type? hx] at htype ⊢
    cases hoperand : p.type? x with
    | none =>
      rw [hoperand] at htype
      exact htype
    | some operand =>
      rw [hoperand] at htype
      exact UnaryType.mono h hq (hp.type_lt hoperand) htype
  | composite | keyValue | block | assign | valueDecl | other => exact htype

/-- A node keeps its type, and the reason for it. -/
theorem HasType.mono {written : Option String} {n : NodeId} (htype : p.HasType written n) : q.HasType written n := by
  obtain ⟨node, hnode, htype⟩ := htype
  have hn := lt_size_of_node? hnode
  refine ⟨node, (h.node? hn).trans hnode, ?_⟩
  rw [h.type? hn]
  cases written with
  | some text =>
    obtain ⟨id, hid, hmeans⟩ := htype
    exact ⟨id, hid, (((hmeans id).2 rfl).mono h.growsTo).iff_eq hq.table⟩
  | none =>
    obtain ⟨d, hd, rfl⟩ := Option.map_eq_some_iff.1 hnode
    have hrange := hp.nodes d (Array.mem_of_getElem? hd)
    exact htype.mono h hp hq hrange.children hrange.symbol

end

/-! ### Nodes from a place on -/

/-- The nodes from `first` on are those of the dumps, one by one, and have the types that these say. -/
structure TypedFrom (p : Program) (first : Nat) (ds : List NodeDump) : Prop where
  size : p.nodes.size = first + ds.length
  types : ∀ {i : Nat} {d : NodeDump}, ds[i]? = some d → p.HasType d.writtenType? (first + i)

theorem TypedFrom.nil {first : Nat} (h : p.nodes.size = first) : p.TypedFrom first [] :=
  ⟨h, fun hd => nomatch hd⟩

theorem TypedFrom.singleton {d : NodeDump} {first : Nat} (hsize : p.nodes.size = first + 1)
    (htype : p.HasType d.writtenType? first) : p.TypedFrom first [d] := by
  refine ⟨hsize, fun {i e} he => ?_⟩
  obtain ⟨hi, rfl⟩ := List.getElem?_eq_some_iff.1 he
  obtain rfl : i = 0 := Nat.lt_one_iff.1 hi
  exact htype

/-- Nodes that follow other nodes keep their types, and the nodes before them do. -/
theorem TypedFrom.append {first : Nat} {ds es : List NodeDump} (hds : p.TypedFrom first ds) (h : p.StartOf q)
    (hp : p.WellFormed false) (hq : q.WellFormed false) (hes : q.TypedFrom p.nodes.size es) :
    q.TypedFrom first (ds ++ es) where
  size := by rw [hes.size, hds.size, List.length_append, Nat.add_assoc]
  types {i d} hd := by
    by_cases hi : i < ds.length
    · rw [List.getElem?_append_left hi] at hd
      exact (hds.types hd).mono h hp hq
    · rw [List.getElem?_append_right (Nat.le_of_not_lt hi)] at hd
      have hplace : p.nodes.size + (i - ds.length) = first + i := by
        rw [hds.size]
        omega
      exact hplace ▸ hes.types hd

end Program

/-! ### Steps that add nodes -/

namespace Build

open Program

variable {α β : Type} {p q r : Program} {m : Build α} {ds es : List NodeDump} {R : α → Program → Prop}

/-- From a well-formed program `p` the step adds the nodes of the dumps, with the types that these say; and what it
returns satisfies `R`. -/
def Appends (p : Program) (m : Build α) (ds : List NodeDump) (R : α → Program → Prop) : Prop :=
  Safe false p m fun a q => (p.StartOf q ∧ q.TypedFrom p.nodes.size ds) ∧ R a q

namespace Appends

/-- A safe step appends the nodes that it is seen to append when it succeeds. -/
theorem of_safe {S : α → Program → Prop} (h : Safe false p m R) (hrun : ∀ a q, p.WellFormed false →
    q.WellFormed false → R a q → m p = .ok a q → (p.StartOf q ∧ q.TypedFrom p.nodes.size ds) ∧ S a q) :
    Appends p m ds S := by
  intro hp
  have hresult := h hp
  cases hm : m p with
  | ok a q =>
    rw [hm] at hresult
    exact ⟨hresult.1, hrun a q hp hresult.1.1 hresult.2 hm⟩
  | error e q =>
    rw [hm] at hresult
    exact hresult

theorem of_wellFormed (h : p.WellFormed false → Appends p m ds R) : Appends p m ds R := fun hp => h hp hp

theorem pure {a : α} (h : R a p) : Appends p (Pure.pure a) [] R := Safe.pure fun _ => ⟨⟨.refl p, .nil rfl⟩, h⟩

theorem get_bind {f : Program → Build α} (h : Appends p (f p) ds R) : Appends p (get >>= f) ds R := h

/-- The nodes of the second step come behind those of the first. -/
theorem bind {f : α → Build β} {S : β → Program → Prop} (hm : Appends p m ds R)
    (hf : ∀ a q, p.StartOf q → R a q → Appends q (f a) es S) : Appends p (m >>= f) (ds ++ es) S := by
  refine fun hp => Safe.bind hm (fun a q hq _ ⟨⟨hstart, htyped⟩, ha⟩ => ?_) hp
  refine Safe.weaken (hf a q hstart ha) fun b r hr _ ⟨⟨hstart', htyped'⟩, hb⟩ => ⟨⟨hstart.trans hstart', ?_⟩, hb⟩
  exact htyped.append hstart' hq hr htyped'

theorem after {f : α → Build β} {S : β → Program → Prop} (hm : Appends p m [] R)
    (hf : ∀ a q, p.StartOf q → R a q → Appends q (f a) ds S) : Appends p (m >>= f) ds S := bind hm hf

/-- What is found for one element stays so while the rest is gone through. -/
theorem mapM {S : β → Program → Prop} {f : α → Build β} {g : α → NodeDump} {l : List α}
    (hmono : ∀ b {q r : Program}, q.StartOf r → S b q → S b r) (h : ∀ a q, Appends q (f a) [g a] S) :
    Appends p (l.mapM f) (l.map g) fun bs q => ∀ b ∈ bs, S b q := by
  induction l generalizing p with
  | nil => exact pure fun _ hb => absurd hb List.not_mem_nil
  | cons a l ih =>
    rw [List.mapM_cons, List.map_cons, ← List.singleton_append]
    refine bind (h a p) fun b q _ hb => ?_
    rw [← List.append_nil (l.map g)]
    exact bind ih fun bs r hr hbs => pure (List.forall_mem_cons.2 ⟨hmono b hr hb, hbs⟩)

theorem forM {f : α → Build PUnit} {g : α → List NodeDump} {l : List α}
    (h : ∀ a q, Appends q (f a) (g a) fun _ _ => True) : Appends p (l.forM f) (l.flatMap g) fun _ _ => True := by
  induction l generalizing p with
  | nil => exact pure trivial
  | cons a l ih =>
    rw [List.flatMap_cons]
    exact bind (h a p) fun _ _ _ _ => ih

end Appends

/-! ### Types, symbols and positions -/

theorem run_parseType {text : String} {id : TypeId} (h : parseType text p = .ok id q) :
    ∃ types, q = { p with types } ∧ p.types.Gains types ∧ types.Means text id := by
  unfold parseType at h
  split at h
  · rename_i id' types hparse
    cases h
    exact ⟨types, rfl, TypeTable.means_of_parse hparse⟩
  · cases h

theorem appends_parseType (text : String) :
    Appends p (parseType text) [] fun id q => id < q.types.size ∧ q.types.Means text id := by
  refine .of_safe (safe_parseType text) fun id q _ _ hid hrun => ?_
  obtain ⟨types, rfl, hgains, hmeans⟩ := run_parseType hrun
  exact ⟨⟨startOf_withTypes hgains.toExtends, .nil rfl⟩, hid, hmeans⟩

theorem appends_intern {ty : Ty} (hty : ty.IsShared) (hrange : ∀ c ∈ ty.components, c < p.types.size) :
    Appends p (intern ty) [] fun id q => id < q.types.size ∧ q.types.Interned ty id := by
  refine .of_safe (safe_intern hty hrange) fun id q _ hq hid hrun => ?_
  have hnamed : ∀ decl, ty ≠ .named decl := by
    rintro decl rfl
    exact hty
  cases hrun
  obtain ⟨hgains, hget⟩ := TypeTable.Gains.intern (t := p.types) hnamed
  exact ⟨⟨startOf_withTypes hgains.toExtends, .nil rfl⟩, hid, TypeTable.interned_of_get? hq.table hty hget⟩

theorem appends_symbols (obj : Option String) :
    Appends p (obj.mapM symbol) [] fun o q => ∀ found ∈ o, found < q.objects.size := by
  refine .of_safe (Safe.option_mapM fun key _ => safe_symbol key) fun o q _ _ ho hrun => ?_
  obtain ⟨-, rfl, -⟩ := grafts_symbols obj o q hrun
  exact ⟨⟨.refl q, .nil rfl⟩, ho⟩

theorem appends_file (name : String) : Appends p (file name) [] fun _ _ => True := by
  refine .of_safe (safe_file name) fun id q _ _ _ hrun => ⟨?_, trivial⟩
  rcases run_file name p with ⟨id', hfile, -⟩ | ⟨-, hfile⟩
  · cases hfile.symm.trans hrun
    exact ⟨.refl p, .nil rfl⟩
  · cases hfile.symm.trans hrun
    exact ⟨startOf_withFiles p _, .nil rfl⟩

theorem appends_position (text : String) (id : FileId) : Appends p (position text (some id)) [] fun _ _ => True := by
  unfold position
  split
  · exact Safe.throw
  · exact .after (appends_file _) fun _ _ _ _ => .pure trivial
  · exact .pure trivial

/-! ### Single nodes -/

variable {node : Node} {pos : Pos} {type : Option TypeId} {d : NodeDump}

/-- A new node that has the type that its dump says once it is there. -/
theorem appends_addNode (hsafe : Safe false p (addNode node pos type) fun n q => n < q.nodes.size)
    (htype : ∀ q, p.WellFormed false → q.WellFormed false → p.StartOf q → q.node? p.nodes.size = some node →
      q.type? p.nodes.size = type → q.HasType d.writtenType? p.nodes.size) :
    Appends p (addNode node pos type) [d] fun n q => n < q.nodes.size := by
  refine .of_safe hsafe fun n q hp hq hn hrun => ?_
  cases hrun
  have hstart := p.startOf_pushNode ⟨node, pos, type⟩
  exact ⟨⟨hstart, .singleton (by simp) (htype _ hp hq hstart (by simp [node?]) (by simp [Program.type?]))⟩, hn⟩

/-- A new node for which no type is written. -/
theorem appends_derived (hwritten : d.writtenType? = none)
    (hsafe : Safe false p (addNode node pos type) fun n q => n < q.nodes.size)
    (hchildren : ∀ c ∈ node.children, c < p.nodes.size) (hsymbol : ∀ o ∈ node.symbol?, o < p.objects.size)
    (htype : p.DerivesType node type) : Appends p (addNode node pos type) [d] fun n q => n < q.nodes.size := by
  refine appends_addNode hsafe fun q hp hq hstart hnode hq' => ⟨node, hnode, ?_⟩
  rw [hwritten, hq']
  exact htype.mono hstart hp hq hchildren hsymbol

/-- A new node for which a type may be written. -/
theorem appends_withType {m : Build NodeId} (hm : m p = addNode node pos type p)
    (hsafe : Safe false p m fun n q => n < q.nodes.size)
    (hchildren : ∀ c ∈ node.children, c < p.nodes.size) (hsymbol : ∀ o ∈ node.symbol?, o < p.objects.size)
    (htype : p.DerivesType node type) :
    Appends p (m >>= fun n => withType n d.writtenType?) [d] fun n q => n < q.nodes.size := by
  have hboth := Safe.bind hsafe fun n _ _ _ hn => safe_withType hn d.writtenType?
  refine .of_safe hboth fun n r hp hr hn hrun => ⟨?_, hn⟩
  obtain ⟨_, q, hadd, hrest⟩ := bind_eq_ok.1 hrun
  rw [hm] at hadd
  cases hadd
  cases hwritten : d.writtenType? with
  | none =>
    rw [hwritten] at hrest
    cases hrest
    have hstart := p.startOf_pushNode ⟨node, pos, type⟩
    refine ⟨hstart, .singleton (by simp) ⟨node, by simp [node?], ?_⟩⟩
    rw [hwritten]
    simpa [Program.type?] using htype.mono hstart hp hr hchildren hsymbol
  | some text =>
    rw [hwritten] at hrest
    obtain ⟨id, _, hparse, hset⟩ := bind_eq_ok.1 hrest
    obtain ⟨types, rfl, hgains, hmeans⟩ := run_parseType hparse
    -- the type is written over the derived one before anything else is added
    obtain rfl : r = { p with types, nodes := p.nodes.push ⟨node, pos, some id⟩ } := by
      cases hset
      exact congrArg (fun nodes => ({ p with types, nodes } : Program)) (modify_push _ _ _)
    have hstart : p.StartOf { p with types, nodes := p.nodes.push ⟨node, pos, some id⟩ } :=
      (startOf_pushNode p ⟨node, pos, some id⟩).trans (startOf_withTypes hgains.toExtends)
    refine ⟨hstart, .singleton (by simp) ⟨node, by simp [node?], ?_⟩⟩
    rw [hwritten]
    exact ⟨id, by simp [Program.type?], hmeans.iff_eq hr.table⟩

/-- A new node that has no type, whatever is known. -/
theorem appends_untyped (hwritten : d.writtenType? = none)
    (hsafe : Safe false p (addNode node pos none) fun n q => n < q.nodes.size)
    (hchildren : ∀ c ∈ node.children, c < p.nodes.size) (hsymbol : node.symbol? = none)
    (htype : p.DerivesType node none) : Appends p (addNode node pos none) [d] fun n q => n < q.nodes.size :=
  appends_derived hwritten hsafe hchildren (by simp [hsymbol]) htype

theorem appends_composite {text : String} {id : TypeId} {elts : List NodeId} (pos : Pos)
    (hwritten : d.writtenType? = some text) (hid : id < p.types.size ∧ p.types.Means text id)
    (helts : ∀ e ∈ elts, e < p.nodes.size) :
    Appends p (composite (some id) elts pos) [d] fun n q => n < q.nodes.size := by
  refine appends_addNode (safe_composite (by simpa using hid.1) helts (inRange_anywhere pos)) ?_
  intro q _ hq hstart hnode htype
  refine ⟨_, hnode, ?_⟩
  rw [hwritten]
  exact ⟨id, htype, (hid.2.mono hstart.growsTo).iff_eq hq.table⟩

theorem appends_literal (kind : LiteralKind) (raw : String) (pos : Pos) (hwritten : d.writtenType? = none) :
    Appends p (literal kind raw pos) [d] fun n q => n < q.nodes.size := by
  refine .after (appends_intern trivial (by simp [Ty.components])) fun id q _ hid => ?_
  refine appends_derived hwritten (safe_addNode fun _ => ?_) (by simp [Node.children]) (by simp [Node.symbol?])
    (Program.derivesType_literal_iff.2 ⟨id, rfl, hid.2⟩)
  exact ⟨by simp [Node.children], by simp [Node.symbol?], by simpa using hid.1, inRange_anywhere pos⟩

theorem appends_unaryType (op : String) {operand : TypeId} (h : operand < p.types.size) :
    Appends p (unaryType op operand) [] fun type q =>
      (∀ id ∈ type, id < q.types.size) ∧ q.UnaryType op operand type := by
  refine .of_wellFormed fun hp => ?_
  unfold unaryType UnaryType
  by_cases hpointer : op = "&"
  · have hintern : Appends p (intern (.pointer operand)) [] fun id q =>
        id < q.types.size ∧ q.types.Interned (.pointer operand) id :=
      appends_intern trivial (by simpa [Ty.components] using h)
    simp only [if_pos hpointer]
    exact .after hintern fun id q _ hid => .pure ⟨by simpa using hid.1, id, rfl, hid.2⟩
  · simp only [if_neg hpointer]
    by_cases hpointee : op = "*"
    · simp only [if_pos hpointee]
      refine .get_bind ?_
      unfold TypeTable.pointee?
      split
      · rename_i elem helem
        refine .pure ⟨?_, by rw [helem]⟩
        rintro _ ⟨⟩
        exact (hp.types helem).types elem (by simp [Ty.typeRefs, Ty.components])
      · rename_i hother
        refine .pure ⟨by simp, ?_⟩
        split
        · exact absurd ‹_› (hother _)
        · rfl
    · simp only [if_neg hpointee]
      exact .pure ⟨by simpa using h, rfl⟩

theorem appends_unary (op : String) {x : NodeId} (pos : Pos) (hwritten : d.writtenType? = none)
    (hx : x < p.nodes.size) : Appends p (unary op x pos) [d] fun n q => n < q.nodes.size := by
  have hnode : ∀ type q, p.StartOf q → (∀ id ∈ type, id < q.types.size) → q.DerivesType (.unary op x) type →
      Appends q (addNode (.unary op x) pos type) [d] fun n r => n < r.nodes.size := by
    intro type q hq hrange htype
    have hchildren : ∀ c ∈ (Node.unary op x).children, c < q.nodes.size := by
      simpa [Node.children] using hq.node_lt hx
    exact appends_derived hwritten (safe_addNode fun _ => ⟨hchildren, by simp [Node.symbol?], hrange,
      inRange_anywhere pos⟩) hchildren (by simp [Node.symbol?]) htype
  refine .of_wellFormed fun hp => .get_bind ?_
  cases hoperand : p.type? x with
  | some operand =>
    refine .after (appends_unaryType op (hp.type_lt hoperand)) fun type q hq htype => hnode type q hq htype.1 ?_
    simp only [DerivesType, hq.type? hx, hoperand]
    exact htype.2
  | none => exact hnode none p (.refl p) (by simp) (by simp only [DerivesType, hoperand])

end Build

end FluentChain
