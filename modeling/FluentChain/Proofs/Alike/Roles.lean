import FluentChain.Chain.Reference
import FluentChain.Proofs.Alike.Programs

/-!
# Roles in programs that are alike

A manifest fits both of two programs that are alike or neither, and gives the same symbols the same roles
(`discover_alike`).  The arguments in which fields are named, and the field references in them, are the same nodes
in both programs.
-/

namespace FluentChain

open Program

/-- Types of one name have the same methods. -/
def Program.SameMethods (p q : Program) : Prop :=
  ∀ {a b : TypeId} {d d' : NamedType}, p.types.get? a = some (.named d) → q.types.get? b = some (.named d') →
    d.name = d'.name → ∀ {o o' : ObjId}, p.SameSymbol q o o' → (o ∈ d.methods ↔ o' ∈ d'.methods)

/-- The tables give the same symbols the same roles. -/
structure RoleTable.Alike (p q : Program) (r r' : RoleTable) : Prop where
  builder : p.types.SameShape q.types r.builder r'.builder
  fieldSelection : p.types.SameShape q.types r.fieldSelection r'.fieldSelection
  fieldOffset : p.SameSymbol q r.fieldOffset r'.fieldOffset
  roleOf? : ∀ {o o' : ObjId}, p.SameSymbol q o o' → r.roleOf? o = r'.roleOf? o'
  tag : r.tag = r'.tag

namespace RoleTable

variable {N : FileNames} {p q : Program}

/-! ### Discovery -/

/-- Whether two failures belong to each other does not matter. -/
abbrev AnyError (_ _ : RoleError) : Prop := True

/-- An expression leads to types of one shape, or to none in both tables. -/
theorem findType?_alike {R : Pos → Pos → Prop} {t u : TypeTable} (h : t.Alike R u) (cs : List Char) :
    Option.Rel (t.SameShape u) (findType? t cs) (findType? u cs) := by
  rw [findType?, findType?]
  split
  · rename_i rest hrest
    have hlt : rest.length < cs.length := by
      have hle := Text.length_trim_le cs
      rw [hrest, List.length_cons] at hle
      omega
    exact rel_bind (findType?_alike h rest) fun _ _ hab => h.pointerTo? hab
  · exact h.named? _
termination_by cs.length

section

variable (h : Program.Alike N p q)

include h

theorem requireType_alike (use : TypeUse) (expr : String) :
    EndTogether (p.types.SameShape q.types) AnyError (requireType p.types use expr) (requireType q.types use expr) := by
  have hfind := findType?_alike h.types expr.toList
  unfold requireType
  revert hfind
  generalize findType? p.types expr.toList = x, findType? q.types expr.toList = y
  rintro (hab | _)
  · exact .ok hab
  · exact .error trivial

/-- The function that gives an offset is found in both programs or in neither. -/
theorem requireFieldOffset_alike (key : String) :
    EndTogether (p.SameSymbol q) AnyError (requireFieldOffset p key) (requireFieldOffset q key) := by
  have hkey := h.lookupObject? key
  unfold requireFieldOffset
  revert hkey
  generalize p.lookupObject? key = x, q.lookupObject? key = y
  rintro (ho | _)
  · have hobj := h.object? ho
    dsimp only
    revert hobj
    generalize p.object? _ = x, q.object? _ = y
    rintro (hobj | _)
    · rename_i obj obj'
      have hkind := hobj.kind
      obtain ⟨key, name, kind, type, recv, pos⟩ := obj
      obtain ⟨key', name', kind', type', recv', pos'⟩ := obj'
      obtain rfl : kind = kind' := hkind
      cases kind with
      | builtin | func => exact .ok ho
      | _ => exact .error trivial
    · exact .error trivial
  · exact .error trivial

/-- A receiver and a name lead to the same symbol, or to none in both programs. -/
theorem findMethod?_alike (receiver name : String) :
    Option.Rel (p.SameSymbol q) (findMethod? p receiver name) (findMethod? q receiver name) := by
  unfold findMethod?
  simp only [Option.orElse_eq_orElse, Option.orElse_eq_or]
  refine rel_or (h.lookupObject? _) ?_
  split
  · exact h.lookupObject? _
  · exact .none

theorem signatureOf?_alike {o o' : ObjId} (ho : p.SameSymbol q o o') :
    Option.Rel (p.types.SameSignature q.types) (signatureOf? p o) (signatureOf? q o') :=
  rel_bind (h.objectType? ho) fun _ _ hab => h.types.signature? hab

/-- The sets of methods are the same. -/
def SameMembers (p q : Program) (os os' : List ObjId) : Prop :=
  ∀ {o o' : ObjId}, p.SameSymbol q o o' → (o ∈ os ↔ o' ∈ os')

/-- A source type has the same methods in both programs, or is no source type in either. -/
theorem sourceMethods_alike (hmethods : p.SameMethods q) {builder builder' : TypeId}
    (hbuilder : p.types.SameShape q.types builder builder') (source : String) :
    EndTogether (SameMembers p q) AnyError (sourceMethods p builder source) (sourceMethods q builder' source) := by
  have hnamed := h.types.named? (splitPointer source).1
  unfold sourceMethods
  dsimp only
  revert hnamed
  generalize p.types.named? (splitPointer source).1 = x, q.types.named? (splitPointer source).1 = y
  rintro (hab | _)
  · rename_i owner owner'
    refine .ok fun {o o'} ho => ?_
    have hmember : o ∈ ((p.types.decl? owner).map (·.methods)).getD [] ↔
        o' ∈ ((q.types.decl? owner').map (·.methods)).getD [] := by
      obtain ⟨ty, ty', hty, hty', hentry⟩ := h.types.exists_entry hab.sameType
      simp only [TypeTable.decl?, hty, hty']
      cases hentry with
      | named hdecl => exact hmethods hty hty' hdecl.name ho
      | _ => exact iff_of_false List.not_mem_nil List.not_mem_nil
    have hrecv : (p.object? o).bind (·.recv) = some owner ↔ (q.object? o').bind (·.recv) = some owner' :=
      eq_some_iff_of_rel (rel_bind (h.object? ho) fun _ _ hobj => hobj.recv) fun _ _ hcd =>
        h.types.eq_iff hcd.sameType hab
    have hresult : (signatureOf? p o).bind Signature.singleResult? = some builder ↔
        (signatureOf? q o').bind Signature.singleResult? = some builder' :=
      eq_some_iff_of_rel (rel_bind (signatureOf?_alike h ho) fun _ _ hsig => hsig.singleResult?) fun _ _ hcd =>
        h.types.eq_iff hcd.sameType hbuilder
    simp only [List.mem_filter, Bool.and_eq_true, Bool.or_eq_true, beq_iff_eq, hmember, hrecv, hresult]
  · exact .error trivial

section

variable {builder builder' selection selection' : TypeId} (hbuilder : p.types.SameShape q.types builder builder')
  (hselection : p.types.SameShape q.types selection selection')

include hbuilder hselection

/-- A method is unfit for a role in both programs for the same flaw. -/
theorem methodFlaw?_alike (role : Role) {o o' : ObjId} (ho : p.SameSymbol q o o') :
    methodFlaw? p builder selection role o = methodFlaw? q builder' selection' role o' := by
  have hsig := signatureOf?_alike h ho
  unfold methodFlaw?
  revert hsig
  generalize signatureOf? p o = x, signatureOf? q o' = y
  rintro (hsig | _)
  · rename_i sig sig'
    have hresult : sig.singleResult? = some builder ↔ sig'.singleResult? = some builder' :=
      eq_some_iff_of_rel hsig.singleResult? fun _ _ hcd => h.types.eq_iff hcd.sameType hbuilder
    have hhead : sig.params.head? = some selection ↔ sig'.params.head? = some selection' :=
      eq_some_iff_of_rel (rel_head? hsig.params) fun _ _ hcd => h.types.eq_iff hcd.sameType hselection
    have hnil : sig.params = [] ↔ sig'.params = [] := by
      rw [← List.length_eq_zero_iff, ← List.length_eq_zero_iff, hsig.params.length_eq]
    cases role <;> simp only [roleFlaw?, hresult, hhead, hnil]
  · rfl

/-- An entry of a manifest gives the same symbol the same role in both programs, or fails in both. -/
theorem namedMethod_alike (entry : MethodRole) :
    EndTogether (fun x y => p.SameSymbol q x.1 y.1 ∧ x.2 = y.2) AnyError (namedMethod p builder selection entry)
      (namedMethod q builder' selection' entry) := by
  have hfind := findMethod?_alike h entry.receiver entry.name
  unfold namedMethod
  revert hfind
  generalize findMethod? p entry.receiver entry.name = x, findMethod? q entry.receiver entry.name = y
  rintro (ho | _)
  · dsimp only
    rw [methodFlaw?_alike h hbuilder hselection entry.role ho]
    split
    · exact .error trivial
    · exact .ok ⟨ho, rfl⟩
  · exact .error trivial

end

omit h in
/-- Methods of sources preserve, and the first of them decides. -/
theorem lookup_preserve (o : ObjId) (os : List ObjId) :
    (os.map (·, Role.preserve)).lookup o = if o ∈ os then some Role.preserve else none := by
  induction os with
  | nil => rfl
  | cons other os ih =>
    rw [List.map_cons, List.lookup_cons]
    by_cases heq : o = other
    · simp [heq]
    · simp [heq, beq_eq_false_iff_ne.2 heq, ih]

omit h in
/-- Whether a symbol is a method of some source does not depend on the program. -/
theorem mem_flatten_alike {sources sources' : List (List ObjId)}
    (hsources : List.Forall₂ (SameMembers p q) sources sources') {o o' : ObjId} (ho : p.SameSymbol q o o') :
    o ∈ sources.flatten ↔ o' ∈ sources'.flatten := by
  induction hsources with
  | nil => exact iff_of_false List.not_mem_nil List.not_mem_nil
  | cons hmembers _ ih => rw [List.flatten_cons, List.flatten_cons, List.mem_append, List.mem_append, hmembers ho, ih]

/-- A manifest fits both programs or neither, and it describes the same roles. -/
theorem discover_alike (hmethods : p.SameMethods q) (manifest : Manifest) :
    EndTogether (RoleTable.Alike p q) AnyError (discover p manifest) (discover q manifest) := by
  refine (requireType_alike h .builder manifest.builder).bind fun builder builder' hbuilder => ?_
  refine (requireType_alike h .fieldSelection manifest.fieldSelection).bind fun selection selection' hselection => ?_
  refine (requireFieldOffset_alike h manifest.fieldOffset).bind fun offset offset' hoffset => ?_
  have hsame : ∀ {α : Type} (l : List α), List.Forall₂ (· = ·) l l := fun l => List.forall₂_eq_eq_eq ▸ rfl
  refine (EndTogether.mapM (hsame manifest.chainSources) (S := SameMembers p q) ?_).bind
    fun sources sources' hsources => ?_
  · rintro source _ rfl
    exact sourceMethods_alike h hmethods hbuilder source
  refine (EndTogether.mapM (hsame manifest.methods) (S := fun x y => p.SameSymbol q x.1 y.1 ∧ x.2 = y.2) ?_).bind
    fun named named' hnamed => ?_
  · rintro entry _ rfl
    exact namedMethod_alike h hbuilder hselection entry
  refine .ok ⟨hbuilder, hselection, hoffset, fun {o o'} ho => ?_, rfl⟩
  have hlookup : named.reverse.lookup o = named'.reverse.lookup o' :=
    eq_of_rel (rel_lookup (List.forall₂_reverse_iff.2 hnamed) fun c c' hc => by
      rw [Bool.eq_iff_iff, beq_iff_eq, beq_iff_eq, h.symbol_eq_iff ho hc])
  -- the named methods come first, and of the others it matters only whether a source has them
  simp only [RoleTable.roleOf?, List.lookup_append, lookup_preserve, hlookup, mem_flatten_alike hsources ho]

/-! ### Field references -/

variable {r r' : RoleTable} (hr : r.Alike p q r')

include hr

/-- A call gives an offset in both programs or in neither. -/
theorem isFieldOffset_alike (n : NodeId) : r.isFieldOffset p n = r'.isFieldOffset q n := by
  unfold isFieldOffset
  rw [Bool.eq_iff_iff, beq_iff_eq, beq_iff_eq]
  exact eq_some_iff_of_rel (h.identObject? n) fun _ _ ho => h.symbol_eq_iff ho hr.fieldOffset

/-- A node is the same reference in both programs. -/
theorem reference?_alike (n : NodeId) : r.reference? p n = r'.reference? q n := by
  unfold reference?
  rcases h.node?_eq_or_ident n with heq | ⟨name, o, o', isDef, hp, hq⟩
  · rw [heq]
    split
    · rfl
    · rw [isFieldOffset_alike h hr]
    · rfl
  · rw [hp, hq]

omit hr in
theorem isMapTyped_alike (n : NodeId) : isMapTyped p n = isMapTyped q n := by
  have hn := h.type? n
  unfold isMapTyped
  revert hn
  generalize p.type? n = x, q.type? n = y
  rintro (hab | _)
  · exact h.types.isMap hab
  · rfl

/-- An argument has the same references in it. -/
theorem references_alike (n : NodeId) : r.references p n = r'.references q n := by
  induction n using Nat.strongRecOn with
  | _ n ih =>
    have hpart : ∀ e, (if e < n then r.references p e else []) = if e < n then r'.references q e else [] := by
      intro e
      split
      · rename_i hlt
        exact ih e hlt
      · rfl
    rw [references, references, isMapTyped_alike h, reference?_alike h hr]
    rcases h.node?_eq_or_ident n with heq | ⟨name, o, o', isDef, hp, hq⟩
    · simp only [heq, hpart]
    · simp only [hp, hq]

omit hr in
/-- The arguments behind the fixed ones are the same nodes. -/
theorem trailingArguments_alike (rest : List NodeId) (spread : Bool) :
    trailingArguments p rest spread = trailingArguments q rest spread := by
  unfold trailingArguments
  split
  · rename_i last _
    rcases h.node?_eq_or_ident last with heq | ⟨name, o, o', isDef, hp, hq⟩
    · rw [heq]
    · rw [hp, hq]
  · rfl

/-- Parameters are field selections in both programs or in neither, so they are passed the same arguments. -/
theorem selected_alike {sig sig' : Signature} (hsig : p.types.SameSignature q.types sig sig') (fixed : Nat)
    (args : List NodeId) :
    (((sig.params.take fixed).zip args).filter (·.1 == r.fieldSelection)).map (·.2) =
      (((sig'.params.take fixed).zip args).filter (·.1 == r'.fieldSelection)).map (·.2) := by
  have hparams := rel_zip (List.forall₂_take fixed hsig.params) args
  refine (map_eq_of_forall₂ (rel_filter_list hparams ?_) ?_).symm
  · rintro x y ⟨hxy, -⟩
    rw [Bool.eq_iff_iff, beq_iff_eq, beq_iff_eq, h.types.eq_iff hxy.sameType hr.fieldSelection]
  · rintro x y ⟨-, hxy⟩
    exact hxy.symm

/-- A method takes any number of selections in both programs or in neither. -/
theorem variadicSelection_alike {sig sig' : Signature} (hsig : p.types.SameSignature q.types sig sig') :
    (sig.params.getLast?.bind p.types.sliceElem? == some r.fieldSelection) =
      (sig'.params.getLast?.bind q.types.sliceElem? == some r'.fieldSelection) := by
  have helem := rel_bind (rel_getLast? hsig.params) fun _ _ hcd => h.types.sliceElem? hcd.sameType
  rw [Bool.eq_iff_iff, beq_iff_eq, beq_iff_eq]
  exact eq_some_iff_of_rel helem fun _ _ hcd => h.types.eq_iff hcd.sameType hr.fieldSelection

/-- The arguments in which a call names fields are the same nodes in both programs. -/
theorem fieldArguments_alike (call : NodeId) : r.fieldArguments p call = r'.fieldArguments q call := by
  have hsig := h.calleeSignature? call
  unfold fieldArguments
  rcases h.node?_eq_or_ident call with heq | ⟨name, o, o', isDef, hp, hq⟩
  · rw [heq]
    cases q.node? call with
    | none => rfl
    | some node =>
      cases node with
      | call callee args spread =>
        revert hsig
        generalize p.calleeSignature? call = x, q.calleeSignature? call = y
        rintro (hsig | _)
        · dsimp only
          rw [selected_alike h hr hsig, variadicSelection_alike h hr hsig, trailingArguments_alike h, hsig.variadic,
            hsig.params.length_eq]
        · rfl
      | _ => rfl
  · rw [hp, hq]

end

end RoleTable

end FluentChain
