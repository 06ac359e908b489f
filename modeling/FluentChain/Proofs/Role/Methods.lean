import FluentChain.Proofs.Alike.Swap
import FluentChain.Proofs.Build.Change

/-!
# Who owns a method

A method is declared on a type `T` or on `*T`, and `T` lists it among its methods.  Whichever way a program is made,
its types list the methods declared on them and on pointers to them, and no others (`Program.Made.ownsMethods`).
Of all building steps only one touches the lists, and the lists of a program from dumps say what the items of the
dumps say.
-/

namespace FluentChain

/-! ### Owners -/

namespace TypeTable

variable {t u : TypeTable} {id recv owner : TypeId}

/-- The methods that a type lists. -/
def methods (t : TypeTable) (id : TypeId) : List ObjId := ((t.decl? id).map (·.methods)).getD []

theorem isSome_decl?_iff : (t.decl? id).isSome ↔ ∃ decl, t.get? id = some (.named decl) := by
  constructor
  · intro h
    obtain ⟨decl, hdecl⟩ := Option.isSome_iff_exists.1 h
    exact ⟨decl, get?_of_decl? hdecl⟩
  · rintro ⟨decl, hid⟩
    simp [decl?, hid]

theorem methods_of_get? {decl : NamedType} (h : t.get? id = some (.named decl)) : t.methods id = decl.methods := by
  simp [methods, decl?, h]

theorem methods_congr (h : u.get? id = t.get? id) : u.methods id = t.methods id := by
  simp only [methods, decl?, h]

theorem methodOwner?_eq_some_iff :
    t.methodOwner? recv = some owner ↔
      (t.decl? owner).isSome ∧ (recv = owner ∨ t.get? recv = some (.pointer owner)) := by
  constructor
  · intro h
    refine ⟨isSome_decl?_iff.2 (Build.get?_methodOwner? h), ?_⟩
    unfold methodOwner? at h
    split at h
    · exact Or.inl (Option.some.inj h)
    · split at h
      · obtain rfl := Option.some.inj h
        exact Or.inr ‹_›
      · cases h
    · cases h
  · rintro ⟨hdecl, rfl | hrecv⟩
    · obtain ⟨decl, hid⟩ := isSome_decl?_iff.1 hdecl
      simp [methodOwner?, hid]
    · simp [methodOwner?, hrecv, hdecl]

theorem GrowsTo.methodOwner? (h : t.GrowsTo u) (howner : t.methodOwner? recv = some owner) :
    u.methodOwner? recv = some owner := by
  obtain ⟨hdecl, hrecv⟩ := methodOwner?_eq_some_iff.1 howner
  obtain ⟨decl, hid⟩ := isSome_decl?_iff.1 hdecl
  obtain ⟨decl', hid', -⟩ := h.named hid
  refine methodOwner?_eq_some_iff.2 ⟨isSome_decl?_iff.2 ⟨decl', hid'⟩, ?_⟩
  exact hrecv.imp_right fun hptr => h.unnamed hptr nofun

end TypeTable

namespace Program

variable {p q r : Program}

/-- The type that a method is declared on. -/
def receiver? (p : Program) (m : ObjId) : Option TypeId := (p.object? m).bind (·.recv)

/-- Each type lists the methods that it owns, and each method has an owner. -/
structure OwnsMethods (p : Program) : Prop where
  owned : ∀ {m : ObjId} {recv : TypeId}, p.receiver? m = some recv → ∃ owner, p.types.methodOwner? recv = some owner
  mem_iff : ∀ {m : ObjId} {owner : TypeId},
    m ∈ p.types.methods owner ↔ ∃ recv, p.receiver? m = some recv ∧ p.types.methodOwner? recv = some owner

theorem receiver?_size (p : Program) : p.receiver? p.objects.size = none := by
  simp [receiver?, object?]

theorem receiver?_push (p : Program) (obj : Object) (m : ObjId) :
    ({ p with objects := p.objects.push obj } : Program).receiver? m =
      if m = p.objects.size then obj.recv else p.receiver? m := by
  simp only [receiver?, object?, Array.getElem?_push]
  split <;> rfl

theorem OwnsMethods.empty : OwnsMethods {} where
  owned hm := by simp [receiver?, object?] at hm
  mem_iff := by simp [receiver?, object?, TypeTable.methods, TypeTable.decl?, TypeTable.get?]

end Program

/-! ### Steps that leave the lists alone -/

namespace TypeTable

variable {t u v : TypeTable} {id : TypeId} {ty : Ty}

/-- The table `u` has grown from `t`; each type lists what it listed, and new types list nothing. -/
structure Spares (t u : TypeTable) : Prop where
  growsTo : t.GrowsTo u
  methods : ∀ id, u.methods id = t.methods id

theorem Spares.refl (t : TypeTable) : t.Spares t := ⟨.refl t, fun _ => rfl⟩

theorem Spares.trans (h : t.Spares u) (h' : u.Spares v) : t.Spares v :=
  ⟨h.growsTo.trans h'.growsTo, fun id => (h'.methods id).trans (h.methods id)⟩

theorem spares_push (hty : ∀ decl, ty = .named decl → decl.methods = []) : t.Spares (t.push ty).2 where
  growsTo := growsTo_push t ty
  methods id := by
    by_cases hid : id = t.size
    · have hnew : t.methods id = [] := by simp [TypeTable.methods, decl?, get?, hid, size]
      rw [hnew, TypeTable.methods, decl?, hid, get?_push_size]
      cases ty with
      | named decl => exact hty decl rfl
      | _ => rfl
    · exact methods_congr (by rw [get?_push, if_neg hid])

theorem methods_modifyDecl {decl : NamedType} {f : NamedType → NamedType} (hid : t.get? id = some (.named decl))
    (j : TypeId) : (t.modifyDecl id f).methods j = if j = id then (f decl).methods else t.methods j := by
  split
  · rw [‹j = id›]
    exact methods_of_get? (by rw [get?_modifyDecl hid, if_pos rfl])
  · exact methods_congr (by rw [get?_modifyDecl hid, if_neg ‹_›])

theorem spares_modifyDecl {decl : NamedType} {f : NamedType → NamedType} (hid : t.get? id = some (.named decl))
    (hname : (f decl).name = decl.name) (hmethods : (f decl).methods = decl.methods) :
    t.Spares (t.modifyDecl id f) where
  growsTo := growsTo_modifyDecl hid hname
  methods j := by
    rw [methods_modifyDecl hid, hmethods]
    split
    · rw [‹j = id›, methods_of_get? hid]
    · rfl

/-- Names that are new list nothing. -/
theorem Extends.spares (h : t.Extends u) : t.Spares u where
  growsTo := h.growsTo
  methods id := by
    by_cases hold : (t.decl? id).isSome
    · obtain ⟨decl, hid⟩ := isSome_decl?_iff.1 hold
      rw [methods_of_get? hid, methods_of_get? (h.get? hid)]
    · have hnone : t.methods id = [] := by simp [TypeTable.methods, Option.not_isSome_iff_eq_none.1 hold]
      rw [hnone]
      cases hdecl : u.decl? id with
      | none => simp [TypeTable.methods, hdecl]
      | some decl =>
        have hid := get?_of_decl? hdecl
        rcases h.blank hid with hid' | ⟨-, hblank⟩
        · exact absurd (isSome_decl?_iff.2 ⟨decl, hid'⟩) hold
        · rw [methods_of_get? hid, hblank]
          rfl

end TypeTable

namespace Program

variable {p q r : Program}

/-- The program `q` has grown from `p`; its methods are those of `p`, and they are listed where they were. -/
structure Spares (p q : Program) : Prop where
  types : p.types.Spares q.types
  receivers : ∀ m, q.receiver? m = p.receiver? m

theorem Spares.refl (p : Program) : p.Spares p := ⟨.refl _, fun _ => rfl⟩

theorem Spares.trans (h : p.Spares q) (h' : q.Spares r) : p.Spares r :=
  ⟨h.types.trans h'.types, fun m => (h'.receivers m).trans (h.receivers m)⟩

theorem Spares.of_objects (htypes : p.types.Spares q.types) (hobjects : q.objects = p.objects) : p.Spares q where
  types := htypes
  receivers m := by simp only [receiver?, object?, hobjects]

/-- Changes that declare no symbol leave the lists alone. -/
theorem Changes.spares (h : p.Changes q) : p.Spares q := by
  induction h with
  | refl => exact .refl p
  | tail _ hstep ih =>
    refine ih.trans ?_
    cases hstep with
    | elsewhere files nodes => exact .of_objects (.refl _) rfl
    | newType ty hty => exact .of_objects (TypeTable.spares_push hty) rfl
    | known f hid hf hmethods => exact .of_objects (TypeTable.spares_modifyDecl hid hf.name hmethods) rfl

/-- Methods keep their owner, so the lists stay what they should be. -/
theorem OwnsMethods.spares (h : p.OwnsMethods) (hq : p.Spares q) : q.OwnsMethods where
  owned hm := by
    rw [hq.receivers] at hm
    obtain ⟨owner, howner⟩ := h.owned hm
    exact ⟨owner, hq.types.growsTo.methodOwner? howner⟩
  mem_iff {m owner} := by
    rw [hq.types.methods, h.mem_iff, hq.receivers]
    refine exists_congr fun recv => and_congr_right fun hm => ?_
    obtain ⟨owner', howner'⟩ := h.owned hm
    rw [howner', hq.types.growsTo.methodOwner? howner']

end Program

namespace Build

variable {α : Type} {p : Program}

/-- The step leaves the methods of `p` and their lists alone, where it fails as well. -/
def SparesIn (p : Program) (m : Build α) : Prop := p.Spares (stateAfter m p)

/-- A symbol that is no method. -/
theorem spares_object {obj : Object} (h : obj.recv = none) : SparesIn p (object obj) := by
  unfold SparesIn stateAfter
  rw [run_object]
  cases p.lookupObject? obj.key with
  | some _ => exact .refl p
  | none =>
    refine ⟨.refl _, fun m => ?_⟩
    rw [Program.receiver?_push, h]
    split
    · rw [‹m = _›, Program.receiver?_size]
    · rfl

end Build

/-! ### The step that declares a method -/

/-- A method goes to the list of its owner. -/
theorem Program.OwnsMethods.pushMethod {p : Program} (h : p.OwnsMethods) {obj : Object} {recv owner : TypeId}
    (hrecv : obj.recv = some recv) (howner : p.types.methodOwner? recv = some owner) :
    OwnsMethods { p with
      objects := p.objects.push obj
      types := p.types.modifyDecl owner fun d => { d with methods := d.methods ++ [p.objects.size] } } := by
  obtain ⟨decl, hid⟩ := Build.get?_methodOwner? howner
  generalize hu : (p.types.modifyDecl owner fun d => { d with methods := d.methods ++ [p.objects.size] }) = u
  have hgrow : p.types.GrowsTo u := hu ▸ TypeTable.growsTo_modifyDecl hid rfl
  have hback : u.GrowsTo p.types := hu ▸ TypeTable.growsTo_of_modifyDecl hid rfl
  have hreceiver : ∀ m, ({ p with objects := p.objects.push obj, types := u } : Program).receiver? m =
      if m = p.objects.size then some recv else p.receiver? m := fun m => hrecv ▸ receiver?_push p obj m
  have hlist : ∀ m id, m ∈ u.methods id ↔ m ∈ p.types.methods id ∨ m = p.objects.size ∧ id = owner := by
    intro m id
    rw [← hu, TypeTable.methods_modifyDecl hid]
    split
    · simp [‹id = owner›, TypeTable.methods_of_get? hid]
    · simp [‹¬ id = owner›]
  refine ⟨fun {m recv'} hm => ?_, fun {m id} => ?_⟩
  · rw [hreceiver] at hm
    split at hm
    · obtain rfl := Option.some.inj hm
      exact ⟨owner, hgrow.methodOwner? howner⟩
    · obtain ⟨owner', howner'⟩ := h.owned hm
      exact ⟨owner', hgrow.methodOwner? howner'⟩
  · have howner_iff : ∀ recv', u.methodOwner? recv' = some id ↔ p.types.methodOwner? recv' = some id :=
      fun recv' => ⟨hback.methodOwner?, hgrow.methodOwner?⟩
    simp only [hlist, hreceiver, howner_iff]
    by_cases hm : m = p.objects.size
    · -- the new method was on no list before
      have hnew : m ∉ p.types.methods id := by
        rw [h.mem_iff, hm, receiver?_size]
        simp
      simp [hm ▸ hnew, hm, howner, eq_comm]
    · simp [hm, h.mem_iff]

theorem Build.owns_method {p : Program} (h : p.OwnsMethods) (recv : TypeId) (name : String) (sig : TypeId) :
    (stateAfter (method recv name sig) p).OwnsMethods := by
  unfold stateAfter
  rw [run_method]
  cases howner : p.types.methodOwner? recv with
  | none => exact h
  | some owner =>
    cases p.lookupObject? (methodKey p.types recv name) with
    | some o => exact h
    | none => exact h.pushMethod rfl howner

namespace Program

variable {p q : Program}

/-! ### Programs that are made -/

theorem OwnsMethods.after (h : p.OwnsMethods) {op : Build.Operation} (hop : op.Fits p) : (op.after p).OwnsMethods := by
  cases op with
  | method recv name sig => exact Build.owns_method h recv name sig
  | object key name kind type pos => exact h.spares (Build.spares_object rfl)
  | _ => exact h.spares (Build.Operation.changes hop id).spares

theorem Built.ownsMethods (h : p.Built) : p.OwnsMethods := by
  induction h with
  | refl => exact .empty
  | tail _ hstep ih =>
    obtain ⟨op, hop, rfl⟩ := hstep
    exact ih.after hop

end Program

theorem Item.methodKey?_eq_some_iff {name key : String} {i : Item} :
    i.methodKey? name = some key ↔ ∃ m, i = .method name m ∧ i.key? = some key := by
  constructor
  · intro h
    cases i with
    | definition type => cases h
    | object d => cases h
    | method owner m =>
      obtain ⟨rfl, hkey⟩ := Option.ite_none_right_eq_some.1 h
      exact ⟨m, rfl, hkey⟩
  · rintro ⟨m, rfl, hkey⟩
    rw [methodKey?, if_pos rfl, hkey]

namespace Describes

variable {files : List String} {types : List TypeDump} {items : List Item} {loose : List TypeExpr} {p : Program}

/-- A symbol with a receiver is the method of an item, and the receiver belongs to the owner that the item names. -/
theorem exists_method (h : Describes files types items loose p) {o : ObjId} {obj : Object} {recv : TypeId}
    (hobj : p.object? o = some obj) (hrecv : obj.recv = some recv) :
    ∃ owner m named, .method owner m ∈ items ∧ (Item.method owner m).key? = some obj.key ∧
      p.types.Denotes (.declared owner) named ∧ p.types.methodOwner? recv = some named := by
  obtain ⟨i, hi, shape, hshape, hof⟩ := h.exists_item hobj
  have hdenotes := hof.recv
  have hkey : i.key? = some obj.key := by rw [Item.key?, hshape, hof.key, Option.map_some]
  cases i with
  | definition type => cases hshape
  | object d =>
    cases hshape
    rw [hrecv] at hdenotes
    cases hdenotes
  | method owner m =>
    cases hshape
    rw [hrecv] at hdenotes
    cases hdenotes with
    | some hdenotes =>
      obtain ⟨named, hnamed⟩ := h.ready.declares.has owner (h.owners _ hi owner rfl)
      exact ⟨owner, m, named, hi, hkey, hnamed, Build.methodOwner?_of_denotes h.ready.wellFormed hnamed hdenotes⟩

/-- The method of an item has the receiver that the item names. -/
theorem exists_receiver (h : Describes files types items loose p) (hitems : Consistent types items) {owner : String}
    {m : MethodDump} (hi : .method owner m ∈ items) {o : ObjId} {obj : Object} (hobj : p.object? o = some obj)
    (hkey : (Item.method owner m).key? = some obj.key) :
    ∃ recv, obj.recv = some recv ∧ p.types.Denotes (m.recv owner) recv := by
  obtain ⟨i, hi', shape, hshape, hof⟩ := h.exists_item hobj
  have hkey' : i.key? = some obj.key := by rw [Item.key?, hshape, hof.key, Option.map_some]
  obtain rfl := eq_of_nodup_filterMap hitems.keys hi hi' hkey hkey'
  cases hshape
  have hdenotes := hof.recv
  cases hrecv : obj.recv with
  | none =>
    rw [hrecv] at hdenotes
    cases hdenotes
  | some recv =>
    rw [hrecv] at hdenotes
    cases hdenotes with
    | some hdenotes => exact ⟨recv, rfl, hdenotes⟩

theorem ownsMethods (h : Describes files types items loose p) (hitems : Consistent types items) : p.OwnsMethods where
  owned hm := by
    obtain ⟨obj, hobj, hrecv⟩ := Option.bind_eq_some_iff.1 hm
    obtain ⟨-, -, named, -, -, -, howner⟩ := h.exists_method hobj hrecv
    exact ⟨named, howner⟩
  mem_iff {o id} := by
    constructor
    · intro ho
      cases hdecl : p.types.decl? id with
      | none => simp [TypeTable.methods, hdecl] at ho
      | some decl =>
        have hid := TypeTable.get?_of_decl? hdecl
        rw [TypeTable.methods_of_get? hid] at ho
        have hlisted := List.mem_map_of_mem (f := p.key?) ho
        rw [(h.decls hid).methods] at hlisted
        obtain ⟨key, hkey, hok⟩ := List.mem_map.1 hlisted
        obtain ⟨i, hi, hikey⟩ := List.mem_filterMap.1 hkey
        obtain ⟨m, rfl, hikey⟩ := Item.methodKey?_eq_some_iff.1 hikey
        obtain ⟨obj, hobj, rfl⟩ := Option.map_eq_some_iff.1 hok.symm
        obtain ⟨recv, hrecv, hdenotes⟩ := h.exists_receiver hitems hi hobj hikey
        refine ⟨recv, ?_, Build.methodOwner?_of_denotes h.ready.wellFormed (.declared hid) hdenotes⟩
        rw [Program.receiver?, hobj, Option.bind_some, hrecv]
    · rintro ⟨recv, ho, howner⟩
      obtain ⟨obj, hobj, hrecv⟩ := Option.bind_eq_some_iff.1 ho
      obtain ⟨owner, m, named, hi, hkey, hnamed, howner'⟩ := h.exists_method hobj hrecv
      obtain rfl := Option.some.inj (howner'.symm.trans howner)
      obtain ⟨decl, hid, rfl⟩ := TypeTable.denotes_declared_iff.1 hnamed
      have hok : p.key? o = some obj.key := by rw [Program.key?, hobj, Option.map_some]
      rw [TypeTable.methods_of_get? hid, mem_methods_iff (h.key?_unique hitems) hok, (h.decls hid).methods]
      exact List.mem_map_of_mem (List.mem_filterMap.2 ⟨_, hi, Item.methodKey?_eq_some_iff.2 ⟨m, rfl, hkey⟩⟩)

end Describes

namespace Program

variable {p : Program}

theorem ownsMethods_of_ofDumps {ds : List PackageDump} (h : ofDumps ds = .ok p) : p.OwnsMethods := by
  obtain ⟨hmergeable, files, p₀, hmerges⟩ := merges_of_ofDumps h
  have hdescribed := hmerges.describes.ownsMethods hmergeable.declarable.items
  exact hdescribed.spares (.of_objects hmerges.carries.types.old.spares hmerges.carries.objects)

/-- The program is made by building steps or from dumps. -/
def Made (p : Program) : Prop := p.Built ∨ ∃ ds, ofDumps ds = .ok p

/-- Types list the methods that are declared on them and on pointers to them, however the program is made. -/
theorem Made.ownsMethods (h : p.Made) : p.OwnsMethods := by
  obtain hbuilt | ⟨ds, hds⟩ := h
  · exact hbuilt.ownsMethods
  · exact ownsMethods_of_ofDumps hds

end Program

end FluentChain
