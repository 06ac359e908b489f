import FluentChain.Proofs.Build.Bounds
import FluentChain.Proofs.Syntax.Forest
import FluentChain.Role.Table

/-!
# Behind the end

What a number leads to is looked up in the program, so a number out of range would lead to whatever stood behind the
end.  A padding of a program is the program with anything behind its ends (`Program.PaddedTo`): nothing there is found
under a name, and only a number could lead to it.  What is the same for all paddings was found without a number that
is out of range.

The lemmas go through the questions that can be asked of types and symbols: in a well-formed program a number in range
leads to numbers in range only, so a padding gives the same answer.  For most of them it is enough that the program is
the start of the other (`Program.StartOf`).  A role table is found alike in all paddings (`PaddedTo.discover`).
-/

namespace FluentChain

/-- The program `q` has the nodes, types and symbols of `p`, and more behind them. -/
structure Program.StartOf (p q : Program) : Prop where
  nodes : p.nodes.toList <+: q.nodes.toList
  types : p.types.entries.toList <+: q.types.entries.toList
  objects : p.objects.toList <+: q.objects.toList

/-- The program `q` is `p` with anything behind its ends. -/
structure Program.PaddedTo (p q : Program) : Prop where
  files : p.files.toList <+: q.files.toList
  nodes : p.nodes.toList <+: q.nodes.toList
  types : p.types.entries.toList <+: q.types.entries.toList
  objects : p.objects.toList <+: q.objects.toList
  decls : q.decls = p.decls
  named? : ∀ name, q.types.named? name = p.types.named? name
  pointerTo? : ∀ id < p.types.size, q.types.pointerTo? id = p.types.pointerTo? id
  lookupObject? : ∀ key, q.lookupObject? key = p.lookupObject? key

/-! ### Loops -/

section

variable {m : Type → Type} [Monad m] {α β : Type}

/-- A loop over a list does the same when its body does so on the elements of the list. -/
theorem forM_congr {f g : α → m PUnit} {l : List α} (h : ∀ a ∈ l, f a = g a) : l.forM f = l.forM g := by
  induction l with
  | nil => rfl
  | cons a l ih =>
    unfold List.forM
    rw [h a List.mem_cons_self, ih fun b hb => h b (List.mem_cons_of_mem a hb)]

theorem foldlM_congr {f g : β → α → m β} {l : List α} (h : ∀ b, ∀ a ∈ l, f b a = g b a) (b : β) :
    l.foldlM f b = l.foldlM g b := by
  induction l generalizing b with
  | nil => rfl
  | cons a l ih =>
    rw [List.foldlM_cons, List.foldlM_cons, h b a List.mem_cons_self]
    exact bind_congr fun c => ih (fun b' a' ha => h b' a' (List.mem_cons_of_mem a ha)) c

theorem mapM_congr [LawfulMonad m] {f g : α → m β} {l : List α} (h : ∀ a ∈ l, f a = g a) : l.mapM f = l.mapM g := by
  induction l with
  | nil => rfl
  | cons a l ih =>
    rw [List.mapM_cons, List.mapM_cons, h a List.mem_cons_self, ih fun b hb => h b (List.mem_cons_of_mem a hb)]

theorem findSome?_congr {f g : α → Option β} {l : List α} (h : ∀ a ∈ l, f a = g a) : l.findSome? f = l.findSome? g := by
  induction l with
  | nil => rfl
  | cons a l ih =>
    rw [List.findSome?_cons, List.findSome?_cons, h a List.mem_cons_self,
      ih fun b hb => h b (List.mem_cons_of_mem a hb)]

end

namespace RoleTable

/-- A type that is found under an expression is in the table. -/
theorem findType?_lt {types : TypeTable} {cs : List Char} {id : TypeId} (h : findType? types cs = some id) :
    id < types.size := by
  fun_induction findType? types cs with
  | case1 cs rest htrim ih =>
    obtain ⟨elem, -, hid⟩ := Option.bind_eq_some_iff.1 h
    exact TypeTable.lt_size_of_get? (TypeTable.get?_of_find? hid)
  | case2 =>
    obtain ⟨decl, hid, -⟩ := TypeTable.get?_of_named? h
    exact TypeTable.lt_size_of_get? hid

/-- A method that is found under a receiver and a name is a symbol of the program. -/
theorem findMethod?_lt {p : Program} {receiver name : String} {m : ObjId} (h : findMethod? p receiver name = some m) :
    m < p.objects.size := by
  have hlookup : ∀ {key}, p.lookupObject? key = some m → m < p.objects.size :=
    fun hkey => (Array.findIdx?_eq_some_iff_getElem.1 hkey).1
  unfold findMethod? at h
  rcases Option.or_eq_some_iff.1 ((Option.orElse_eq_or ..).symm.trans h) with h | ⟨-, h⟩
  · exact hlookup h
  · split at h
    · exact hlookup h
    · cases h

end RoleTable

namespace Program

variable {placed : Bool} {p q : Program}

/-- Children are nodes of the program. -/
theorem WellFormed.child_lt (hp : p.WellFormed placed) {n c : NodeId} (h : c ∈ p.children n) : c < p.nodes.size := by
  obtain ⟨node, hnode, hc⟩ := exists_node_of_mem_children h
  obtain ⟨d, hd, rfl⟩ := Option.map_eq_some_iff.1 hnode
  exact (hp.nodes d (Array.mem_of_getElem? hd)).children c hc

/-- What a call calls and passes is there. -/
theorem WellFormed.call_lt (hp : p.WellFormed placed) {n callee : NodeId} {args : List NodeId} {spread : Bool}
    (h : p.node? n = some (.call callee args spread)) : callee < p.nodes.size ∧ ∀ arg ∈ args, arg < p.nodes.size := by
  have hchildren : ∀ c ∈ callee :: args, c < p.nodes.size := fun c hc =>
    hp.child_lt (n := n) (by rwa [children_of_node? h])
  exact List.forall_mem_cons.1 hchildren

/-- Both parts of a selector are there. -/
theorem WellFormed.selector_lt (hp : p.WellFormed placed) {n x sel : NodeId} (h : p.node? n = some (.selector x sel)) :
    x < p.nodes.size ∧ sel < p.nodes.size := by
  have hchildren : ∀ c ∈ [x, sel], c < p.nodes.size := fun c hc =>
    hp.child_lt (n := n) (by rwa [children_of_node? h])
  exact ⟨hchildren x (by simp), hchildren sel (by simp)⟩

/-- What stands before the end of an array stands at the same place where more is put behind it. -/
theorem getElem?_of_isPrefix {α : Type} {xs ys : Array α} (h : xs.toList <+: ys.toList) {i : Nat} (hi : i < xs.size) :
    ys[i]? = xs[i]? := by
  have hget := List.prefix_iff_getElem?.1 h i (by simpa using hi)
  simpa [hi] using hget

/-! ### From the start on -/

namespace StartOf

theorem refl (p : Program) : p.StartOf p := ⟨List.prefix_refl _, List.prefix_refl _, List.prefix_refl _⟩

theorem trans {r : Program} (h : p.StartOf q) (h' : q.StartOf r) : p.StartOf r :=
  ⟨h.nodes.trans h'.nodes, h.types.trans h'.types, h.objects.trans h'.objects⟩

variable (h : p.StartOf q) (hp : p.WellFormed placed)

include h

theorem nodes_size_le : p.nodes.size ≤ q.nodes.size := by
  simpa using h.nodes.length_le

theorem get? {id : TypeId} (hid : id < p.types.size) : q.types.get? id = p.types.get? id :=
  getElem?_of_isPrefix h.types hid

theorem get?_of_eq_some {id : TypeId} {ty : Ty} (hid : p.types.get? id = some ty) : q.types.get? id = some ty :=
  (h.get? (TypeTable.lt_size_of_get? hid)).trans hid

theorem decl? {id : TypeId} (hid : id < p.types.size) : q.types.decl? id = p.types.decl? id := by
  unfold TypeTable.decl?
  rw [h.get? hid]

theorem object? {o : ObjId} (ho : o < p.objects.size) : q.object? o = p.object? o :=
  getElem?_of_isPrefix h.objects ho

theorem objectType? {o : ObjId} (ho : o < p.objects.size) : q.objectType? o = p.objectType? o := by
  unfold Program.objectType?
  rw [h.object? ho]

theorem nodeData? {n : NodeId} (hn : n < p.nodes.size) : q.nodes[n]? = p.nodes[n]? :=
  getElem?_of_isPrefix h.nodes hn

theorem node? {n : NodeId} (hn : n < p.nodes.size) : q.node? n = p.node? n := by
  unfold Program.node?
  rw [h.nodeData? hn]

theorem type? {n : NodeId} (hn : n < p.nodes.size) : q.type? n = p.type? n := by
  unfold Program.type?
  rw [h.nodeData? hn]

include hp

/-- Following the names of a type in range stays in range, so it ends where it did. -/
theorem underlyingWithin {id : TypeId} (hid : id < p.types.size) (depth : Nat) :
    q.types.underlyingWithin depth id = p.types.underlyingWithin depth id := by
  induction depth generalizing id with
  | zero => rfl
  | succ depth ih =>
    rw [TypeTable.underlyingWithin, TypeTable.underlyingWithin, h.decl? hid]
    split
    · exact ih (hp.underlying_lt ‹_› rfl)
    · rfl

theorem get?_underlying {id : TypeId} (hid : id < p.types.size) :
    q.types.get? (q.types.underlying id) = p.types.get? (p.types.underlying id) := by
  unfold TypeTable.underlying
  rw [h.underlyingWithin hp hid]
  exact h.get? (hp.underlyingWithin_lt hid _)

/-- Fields of types in range are the fields that they were. -/
theorem structFields? {id : TypeId} (hid : id < p.types.size) :
    q.types.structFields? id = p.types.structFields? id := by
  unfold TypeTable.structFields?
  rw [h.get?_underlying hp hid]

theorem signature? {id : TypeId} (hid : id < p.types.size) : q.types.signature? id = p.types.signature? id := by
  unfold TypeTable.signature?
  rw [h.get?_underlying hp hid]

/-- A name selects the same of a type in range, whether a method, a field of its own or one of an embedded struct. -/
theorem selectWithin (name : String) (depth : Nat) {id : TypeId} (hid : id < p.types.size) :
    q.types.selectWithin name depth id = p.types.selectWithin name depth id := by
  induction depth generalizing id with
  | zero => rfl
  | succ depth ih =>
    rw [TypeTable.selectWithin, TypeTable.selectWithin, h.structFields? hp hid]
    cases hfields : p.types.structFields? id with
    | none => rfl
    | some fields =>
      have hembedded : (fields.filter (·.embedded)).findSome? (fun f => q.types.selectWithin name depth f.type) =
          (fields.filter (·.embedded)).findSome? fun f => p.types.selectWithin name depth f.type :=
        findSome?_congr fun f hf => ih (hp.field_lt hfields f (List.mem_of_mem_filter hf))
      simp only [Option.bind_eq_bind, Option.bind_some, hembedded]

theorem selectField? {id : TypeId} (hid : id < p.types.size) (name : String) :
    q.types.selectField? id name = p.types.selectField? id name := by
  unfold TypeTable.selectField?
  rw [h.get? hid]
  split
  · rename_i elem hpointer
    exact h.selectWithin hp name _ ((hp.types hpointer).types elem (by simp [Ty.typeRefs, Ty.components]))
  · exact h.selectWithin hp name _ hid

/-- What is selected by a node in range has the type that it had. -/
theorem selectionType? {x sel : NodeId} (hx : x < p.nodes.size) (hsel : sel < p.nodes.size) :
    Build.selectionType? q x sel = Build.selectionType? p x sel := by
  unfold Build.selectionType?
  rw [h.node? hsel, h.type? hx]
  split
  · rename_i name _ _ _
    cases htype : p.type? x with
    | none => rw [Option.bind_none, Option.bind_none]
    | some type => rw [Option.bind_some, Option.bind_some, h.selectField? hp (hp.type_lt htype)]
  · rfl

/-- A call of a node in range has the signature that it had. -/
theorem calleeSignature? {n : NodeId} (hn : n < p.nodes.size) : q.calleeSignature? n = p.calleeSignature? n := by
  unfold Program.calleeSignature?
  rw [h.node? hn]
  split
  · rename_i callee args spread hnode
    rw [h.type? (hp.call_lt hnode).1]
    cases htype : p.type? callee with
    | none => rfl
    | some type => exact h.signature? hp (hp.type_lt htype)
  · rfl

end StartOf

namespace PaddedTo

variable (h : p.PaddedTo q) (hp : p.WellFormed placed)

include h

/-- A padding has the program as its start. -/
theorem startOf : p.StartOf q := ⟨h.nodes, h.types, h.objects⟩

/-! ### Types -/

theorem get? {id : TypeId} (hid : id < p.types.size) : q.types.get? id = p.types.get? id := h.startOf.get? hid

theorem decl? {id : TypeId} (hid : id < p.types.size) : q.types.decl? id = p.types.decl? id := h.startOf.decl? hid

theorem sliceElem? {id : TypeId} (hid : id < p.types.size) : q.types.sliceElem? id = p.types.sliceElem? id := by
  unfold TypeTable.sliceElem?
  rw [h.get? hid]

include hp

theorem structFields? {id : TypeId} (hid : id < p.types.size) : q.types.structFields? id = p.types.structFields? id :=
  h.startOf.structFields? hp hid

theorem signature? {id : TypeId} (hid : id < p.types.size) : q.types.signature? id = p.types.signature? id :=
  h.startOf.signature? hp hid

theorem isMap {id : TypeId} (hid : id < p.types.size) : q.types.isMap id = p.types.isMap id := by
  unfold TypeTable.isMap
  rw [h.startOf.get?_underlying hp hid]

/-- The record of a type in range is its record in a padding, as elements stand before what is made of them. -/
theorem recordType? {id : TypeId} (hid : id < p.types.size) : q.types.recordType? id = p.types.recordType? id := by
  induction id using Nat.strongRecOn with
  | ind id ih =>
    have helem : ∀ elem, (if elem < id then q.types.recordType? elem else none) =
        if elem < id then p.types.recordType? elem else none := by
      intro elem
      split
      · exact ih elem ‹_› (Nat.lt_trans ‹_› hid)
      · rfl
    rw [TypeTable.recordType?, TypeTable.recordType?, h.get? hid, h.structFields? hp hid]
    simp only [helem]

omit hp in
/-- Types in range are shown as they were. -/
theorem display {id : TypeId} (hid : id < p.types.size) : q.types.display id = p.types.display id := by
  induction id using Nat.strongRecOn with
  | ind id ih =>
    have helem : ∀ elem, (if elem < id then q.types.display elem else "") =
        if elem < id then p.types.display elem else "" := by
      intro elem
      split
      · exact ih elem ‹_› (Nat.lt_trans ‹_› hid)
      · rfl
    rw [TypeTable.display, TypeTable.display, h.get? hid]
    simp only [helem]

/-! ### Fields -/

/-- Two ways to add promoted fields that agree on fields in range give the same table, in a padding too. -/
theorem addFieldsWith {promote promote' : List Field → FieldTable → Except FieldTableError FieldTable}
    (hpromote : ∀ fields table, (∀ f ∈ fields, f.type < p.types.size) → promote' fields table = promote fields table)
    (tag : TagConfig) {fields : List Field} (hfields : ∀ f ∈ fields, f.type < p.types.size) (table : FieldTable) :
    FieldTable.addFieldsWith promote' q.types tag fields table =
      FieldTable.addFieldsWith promote p.types tag fields table := by
  refine foldlM_congr (fun table f hf => ?_) table
  rw [h.structFields? hp (hfields f hf)]
  unfold FieldTable.recordField
  rw [h.recordType? hp (hfields f hf)]
  split
  · split
    · exact hpromote _ table (hp.field_lt ‹_›)
    · rfl
  · rfl

theorem addFields (tag : TagConfig) (depth : Nat) {fields : List Field} (hfields : ∀ f ∈ fields, f.type < p.types.size)
    (table : FieldTable) :
    FieldTable.addFields q.types tag depth fields table = FieldTable.addFields p.types tag depth fields table := by
  induction depth generalizing fields table with
  | zero => exact h.addFieldsWith hp (fun _ _ _ => rfl) tag hfields table
  | succ depth ih => exact h.addFieldsWith hp (fun _ table hfields => ih hfields table) tag hfields table

/-- A type in range has the field table that it had, or fails for the same fields. -/
theorem fieldTable (tag : TagConfig) {id : TypeId} (hid : id < p.types.size) :
    FieldTable.ofType q.types tag id = FieldTable.ofType p.types tag id := by
  unfold FieldTable.ofType
  rw [h.structFields? hp hid, h.display hid]
  split
  · exact h.addFields hp tag _ (hp.field_lt ‹_›) _
  · rfl

omit hp

/-! ### Symbols -/

theorem object? {o : ObjId} (ho : o < p.objects.size) : q.object? o = p.object? o := h.startOf.object? ho

theorem objectType? {o : ObjId} (ho : o < p.objects.size) : q.objectType? o = p.objectType? o :=
  h.startOf.objectType? ho

/-! ### Roles -/

/-- A method is looked up under keys, so what stands behind the end is not found. -/
theorem findMethod? (receiver name : String) :
    RoleTable.findMethod? q receiver name = RoleTable.findMethod? p receiver name := by
  unfold RoleTable.findMethod?
  simp only [h.lookupObject?]

theorem requireFieldOffset (key : String) :
    RoleTable.requireFieldOffset q key = RoleTable.requireFieldOffset p key := by
  unfold RoleTable.requireFieldOffset
  rw [h.lookupObject?]
  split
  · rw [h.object? (Array.findIdx?_eq_some_iff_getElem.1 ‹_›).1]
  · rfl

/-- An expression leads to the type that it did: its name is found under no other declaration, and pointers to types in
range are the pointers that were there. -/
theorem findType? (cs : List Char) : RoleTable.findType? q.types cs = RoleTable.findType? p.types cs := by
  fun_induction RoleTable.findType? p.types cs with
  | case1 cs rest htrim ih =>
    rw [RoleTable.findType?]
    split
    · rename_i rest' htrim'
      cases htrim.symm.trans htrim'
      rw [ih]
      cases hid : RoleTable.findType? p.types rest with
      | none => rfl
      | some id => exact h.pointerTo? id (RoleTable.findType?_lt hid)
    · simp_all
  | case2 cs hname =>
    rw [RoleTable.findType?]
    split
    · simp_all
    · exact h.named? _

theorem requireType (use : TypeUse) (expr : String) :
    RoleTable.requireType q.types use expr = RoleTable.requireType p.types use expr := by
  unfold RoleTable.requireType
  rw [h.findType?]

include hp

theorem signatureOf? {m : ObjId} (hm : m < p.objects.size) :
    RoleTable.signatureOf? q m = RoleTable.signatureOf? p m := by
  unfold RoleTable.signatureOf?
  rw [h.objectType? hm]
  cases htype : p.objectType? m with
  | none => rfl
  | some type => exact h.signature? hp (hp.objectType_lt htype)

/-- The methods of a declared source type are those that they were. -/
theorem sourceMethods (builder : TypeId) (source : String) :
    RoleTable.sourceMethods q builder source = RoleTable.sourceMethods p builder source := by
  unfold RoleTable.sourceMethods
  dsimp only
  rw [h.named?]
  split
  · rfl
  · rename_i owner howner
    obtain ⟨decl, hdecl, -⟩ := TypeTable.get?_of_named? howner
    rw [h.decl? (TypeTable.lt_size_of_get? hdecl)]
    refine congrArg Except.ok (List.filter_congr fun m hm => ?_)
    have hlt : m < p.objects.size :=
      (hp.types hdecl).methods m (by simpa [Ty.methodRefs, TypeTable.decl?, hdecl] using hm)
    rw [h.object? hlt, h.signatureOf? hp hlt]

/-- A method that a manifest names gets the role, or the flaw, that it got. -/
theorem namedMethod (builder fieldSelection : TypeId) (entry : MethodRole) :
    RoleTable.namedMethod q builder fieldSelection entry = RoleTable.namedMethod p builder fieldSelection entry := by
  unfold RoleTable.namedMethod RoleTable.methodFlaw?
  rw [h.findMethod?]
  split
  · rfl
  · rename_i m hm
    have hlt := RoleTable.findMethod?_lt hm
    rw [h.signatureOf? hp hlt, h.object? hlt]

/-- The roles of a program are found without a number that is out of range. -/
theorem discover (manifest : Manifest) : RoleTable.discover q manifest = RoleTable.discover p manifest := by
  have hsources : ∀ builder, manifest.chainSources.mapM (RoleTable.sourceMethods q builder) =
      manifest.chainSources.mapM (RoleTable.sourceMethods p builder) :=
    fun builder => mapM_congr fun source _ => h.sourceMethods hp builder source
  have hnamed : ∀ builder fieldSelection, manifest.methods.mapM (RoleTable.namedMethod q builder fieldSelection) =
      manifest.methods.mapM (RoleTable.namedMethod p builder fieldSelection) :=
    fun builder fieldSelection => mapM_congr fun entry _ => h.namedMethod hp builder fieldSelection entry
  unfold RoleTable.discover
  simp only [h.requireType, h.requireFieldOffset, hsources, hnamed]

end PaddedTo

end Program

end FluentChain
