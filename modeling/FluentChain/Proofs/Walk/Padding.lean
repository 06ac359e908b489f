import FluentChain.Proofs.Build.Padding
import FluentChain.Proofs.Walk.Records
import FluentChain.Proofs.Walk.Reference

/-!
# Nothing behind the end is walked

A walk over a well-formed program looks at nothing behind its end: on a padding of the program it goes the same way
(`PaddedTo.walk`).  From a node in range the walk comes to nodes, symbols and types in range only, and the records that
chains point at are types of the program, as they are sound.  So each part of the walk is the same on both, in an
environment and a state of which all contexts are sound.
-/

namespace FluentChain

namespace Program

variable {placed : Bool} {p q : Program} {roles : RoleTable}

namespace WellFormed

variable (hp : p.WellFormed placed)

include hp

/-- A symbol that a name stands for is in range. -/
theorem symbol_lt {n : NodeId} {o : ObjId} (h : p.identObject? n = some o) : o < p.objects.size := by
  induction n using Nat.strongRecOn with
  | ind n ih =>
    rw [identObject?] at h
    split at h
    · rename_i hnode
      obtain ⟨d, hd, hnode⟩ := Option.map_eq_some_iff.1 hnode
      exact (hp.nodes d (Array.mem_of_getElem? hd)).symbol o (by rw [hnode]; exact h)
    · split at h
      · exact ih _ ‹_› h
      · cases h
    · cases h

/-- So are the types of the function that is called. -/
theorem callee_lt {call : NodeId} {sig : Signature} (h : p.calleeSignature? call = some sig) :
    ∀ c ∈ sig.params ++ sig.results, c < p.types.size := by
  unfold calleeSignature? at h
  split at h
  · obtain ⟨type, -, hsig⟩ := Option.bind_eq_some_iff.1 h
    exact hp.signature_lt hsig
  · cases h

end WellFormed

end Program

/-- Field references are nodes of the program. -/
theorem RoleTable.lt_size_of_mem_references {roles : RoleTable} {p : Program} {n m : NodeId}
    (h : m ∈ roles.references p n) : m < p.nodes.size := by
  fun_induction RoleTable.references roles p n with
  | case1 n elts hnode hmap ih =>
    obtain ⟨e, he, hm⟩ := List.mem_flatMap.1 h
    split at hm
    · exact ih e ‹_› hm
    · cases hm
  | case3 n key value hnode hlt ih => exact ih h
  | case5 n href =>
    rw [List.mem_singleton.1 h]
    obtain ⟨ref, href⟩ := Option.isSome_iff_exists.1 href
    unfold RoleTable.reference? at href
    split at href
    · exact Program.lt_size_of_node? ‹_›
    · exact Program.lt_size_of_node? ‹_›
    · cases href
  | _ => cases h

/-- The record that a sound chain points at is a type of the table. -/
theorem ChainContext.Sound.top_lt {types : TypeTable} {ctx : ChainContext} (h : ctx.Sound types) {record : TypeId}
    (htop : ctx.top? = some record) : record < types.size := by
  cases ctx with
  | untracked => cases htop
  | invalid => cases htop
  | tracked stack =>
    cases htop
    obtain ⟨decl, hdecl⟩ := Option.isSome_iff_exists.1 (h.struct stack.top (by simp [RecordStack.records])).1
    exact TypeTable.lt_size_of_get? (TypeTable.get?_of_decl? hdecl)

namespace Program.PaddedTo

variable {placed : Bool} {p q : Program} {roles : RoleTable} (h : p.PaddedTo q) (hp : p.WellFormed placed)

include h

/-! ### Syntax -/

theorem node? {n : NodeId} (hn : n < p.nodes.size) : q.node? n = p.node? n := h.startOf.node? hn

theorem pos {n : NodeId} (hn : n < p.nodes.size) : q.pos n = p.pos n := by
  unfold Program.pos
  rw [h.startOf.nodeData? hn]

theorem type? {n : NodeId} (hn : n < p.nodes.size) : q.type? n = p.type? n := h.startOf.type? hn

theorem subnodes {n : NodeId} (hn : n < p.nodes.size) : q.subnodes n = p.subnodes n := by
  unfold Program.subnodes Program.children
  rw [h.node? hn]

theorem isCall {n : NodeId} (hn : n < p.nodes.size) : q.isCall n = p.isCall n := by
  unfold Program.isCall
  rw [h.node? hn]

/-- A name stands for the same symbol in the longer program. -/
theorem identObject? {n : NodeId} (hn : n < p.nodes.size) : q.identObject? n = p.identObject? n := by
  induction n using Nat.strongRecOn with
  | ind n ih =>
    rw [Program.identObject?, Program.identObject?, h.node? hn]
    split
    · rfl
    · rename_i x sel _
      by_cases hlt : sel < n
      · simp only [hlt, ↓reduceIte]
        exact ih sel hlt (Nat.lt_trans hlt hn)
      · simp only [hlt, ↓reduceIte]
    · rfl

include hp

theorem calleeSignature? {n : NodeId} (hn : n < p.nodes.size) : q.calleeSignature? n = p.calleeSignature? n :=
  h.startOf.calleeSignature? hp hn

/-- A method call has the same parts in the longer program. -/
theorem methodCall? {n : NodeId} (hn : n < p.nodes.size) : q.methodCall? n = p.methodCall? n := by
  unfold Program.methodCall?
  rw [h.node? hn]
  split
  · rename_i callee args spread hnode
    rw [h.node? (hp.call_lt hnode).1]
  · rfl

/-! ### Field references -/

theorem reference? {n : NodeId} (hn : n < p.nodes.size) : roles.reference? q n = roles.reference? p n := by
  unfold RoleTable.reference? RoleTable.isFieldOffset
  rw [h.node? hn]
  split
  · rfl
  · rename_i callee args spread hnode
    rw [h.identObject? (hp.call_lt hnode).1]
  · rfl

theorem isMapTyped {n : NodeId} (hn : n < p.nodes.size) : RoleTable.isMapTyped q n = RoleTable.isMapTyped p n := by
  unfold RoleTable.isMapTyped
  rw [h.type? hn]
  cases htype : p.type? n with
  | none => rfl
  | some type => exact h.isMap hp (hp.type_lt htype)

/-- The field references in an argument are the same: the search for them goes down to children only. -/
theorem references {n : NodeId} (hn : n < p.nodes.size) : roles.references q n = roles.references p n := by
  induction n using Nat.strongRecOn with
  | ind n ih =>
    have hbelow : ∀ e, (if e < n then roles.references q e else []) = if e < n then roles.references p e else [] := by
      intro e
      split
      · exact ih e ‹_› (Nat.lt_trans ‹_› hn)
      · rfl
    rw [RoleTable.references, RoleTable.references, h.node? hn, h.isMapTyped hp hn, h.reference? hp hn]
    simp only [hbelow]

/-- The same arguments of a call are looked at for field references. -/
theorem fieldArguments {call : NodeId} (hcall : call < p.nodes.size) :
    roles.fieldArguments q call = roles.fieldArguments p call := by
  unfold RoleTable.fieldArguments
  rw [h.node? hcall, h.calleeSignature? hp hcall]
  split
  · rename_i callee args spread sig hnode hsig
    have hslice : sig.params.getLast?.bind q.types.sliceElem? = sig.params.getLast?.bind p.types.sliceElem? := by
      cases hlast : sig.params.getLast? with
      | none => rfl
      | some last => exact h.sliceElem? (hp.callee_lt hsig last (by simp [List.mem_of_getLast? hlast]))
    have htrailing : ∀ rest, (∀ arg ∈ rest, arg ∈ args) →
        RoleTable.trailingArguments q rest spread = RoleTable.trailingArguments p rest spread := by
      intro rest hrest
      unfold RoleTable.trailingArguments
      split
      · rename_i last hlast
        rw [h.node? ((hp.call_lt hnode).2 last (hrest last (List.mem_of_getLast? hlast)))]
      · rfl
    dsimp only
    rw [hslice, htrailing _ fun arg harg => List.mem_of_mem_drop harg]
  · rfl

/-! ### Examining field references -/

theorem recordOf? {x : NodeId} (hx : x < p.nodes.size) : Walk.recordOf? q x = Walk.recordOf? p x := by
  unfold Walk.recordOf?
  rw [h.type? hx]
  cases htype : p.type? x with
  | none => rfl
  | some type => exact h.recordType? hp (hp.type_lt htype)

omit h in
/-- The arguments of an offset reference are in range, as it is a call of the program. -/
theorem offset_lt {n : NodeId} {args : List NodeId} (href : roles.reference? p n = some (.offset args)) :
    ∀ arg ∈ args, arg < p.nodes.size := by
  intro arg harg
  unfold RoleTable.reference? at href
  split at href
  · cases href
  · rename_i callee args' spread hnode
    split at href
    · cases href
      exact (hp.call_lt hnode).2 arg harg
    · cases href
  · cases href

omit hp in
theorem offsetSelector? {args : List NodeId} (hargs : ∀ arg ∈ args, arg < p.nodes.size) :
    Walk.offsetSelector? q args = Walk.offsetSelector? p args := by
  unfold Walk.offsetSelector?
  cases args with
  | nil => rfl
  | cons arg rest => simp only [List.head?_cons, Option.bind_eq_bind, Option.bind_some, h.node? (hargs arg (by simp))]

omit h in
/-- What an offset argument is made of is in range. -/
theorem offsetSelector?_lt {args : List NodeId} {arg x sel : NodeId}
    (hparts : Walk.offsetSelector? p args = some (arg, x, sel)) :
    arg < p.nodes.size ∧ x < p.nodes.size ∧ sel < p.nodes.size := by
  obtain ⟨arg', -, hparts⟩ := Option.bind_eq_some_iff.1 hparts
  split at hparts
  · rename_i x' sel' hnode
    cases hparts
    exact ⟨lt_size_of_node? hnode, hp.selector_lt hnode⟩
  · cases hparts

/-- A reference is examined alike: its record, the table of the record and its own text are in range. -/
theorem checkReference {record : TypeId} (hrecord : record < p.types.size) {n : NodeId} (hn : n < p.nodes.size) :
    Walk.checkReference q roles record n = Walk.checkReference p roles record n := by
  unfold Walk.checkReference Walk.reportTable Walk.decodeLiteral Walk.declaredAt Walk.fieldTable
  rw [h.reference? hp hn, h.fieldTable hp _ hrecord, h.decl? hrecord, h.pos hn]
  cases href : roles.reference? p n with
  | none => rfl
  | some ref =>
    cases ref with
    | named raw => rfl
    | offset args =>
      dsimp only
      rw [h.offsetSelector? (offset_lt hp href)]
      cases hparts : Walk.offsetSelector? p args with
      | none => rfl
      | some parts =>
        obtain ⟨arg, x, sel⟩ := parts
        obtain ⟨harg, hx, -⟩ := offsetSelector?_lt hp hparts
        dsimp only
        rw [h.recordOf? hp hx, h.pos harg]

theorem checkArguments {record : TypeId} (hrecord : record < p.types.size) {args : List NodeId}
    (hargs : ∀ arg ∈ args, arg < p.nodes.size) :
    Walk.checkArguments q roles record args = Walk.checkArguments p roles record args := by
  unfold Walk.checkArguments
  rw [List.flatMap_congr fun arg harg => h.references hp (hargs arg harg)]
  refine forM_congr fun n hn => h.checkReference hp hrecord ?_
  obtain ⟨arg, -, hn⟩ := List.mem_flatMap.1 hn
  exact RoleTable.lt_size_of_mem_references hn

/-- An argument selects the same record. -/
theorem selectRecord {record : TypeId} (hrecord : record < p.types.size) {n : NodeId} (hn : n < p.nodes.size) :
    Walk.selectRecord q roles record n = Walk.selectRecord p roles record n := by
  unfold Walk.selectRecord Walk.reportTable Walk.decodeLiteral Walk.fieldTable
  rw [h.reference? hp hn, h.fieldTable hp _ hrecord, h.pos hn]
  cases href : roles.reference? p n with
  | none => rfl
  | some ref =>
    cases ref with
    | named raw => rfl
    | offset args =>
      dsimp only
      rw [h.offsetSelector? (offset_lt hp href)]
      cases hparts : Walk.offsetSelector? p args with
      | none => rfl
      | some parts =>
        obtain ⟨arg, x, sel⟩ := parts
        obtain ⟨harg, -, hsel⟩ := offsetSelector?_lt hp hparts
        dsimp only
        rw [h.recordOf? hp harg, h.pos hsel]

/-! ### Contexts of calls -/

theorem openChain {call : NodeId} (hcall : call < p.nodes.size) {args : List NodeId}
    (hargs : ∀ arg ∈ args, arg < p.nodes.size) : Walk.openChain q call args = Walk.openChain p call args := by
  unfold Walk.openChain
  rw [h.pos hcall]
  cases args with
  | nil => rfl
  | cons arg rest =>
    dsimp only
    rw [h.type? (hargs arg (by simp))]
    cases htype : p.type? arg with
    | none => rfl
    | some type =>
      dsimp only
      rw [h.recordType? hp (hp.type_lt htype), h.display (hp.type_lt htype)]

/-- A role does the same to a context whose records are in range. -/
theorem applyRole {role : Option Role} {call : NodeId} (hcall : call < p.nodes.size) {args : List NodeId}
    (hargs : ∀ arg ∈ args, arg < p.nodes.size) {receiver : ChainContext} (hreceiver : receiver.Sound p.types) :
    Walk.applyRole q roles role call args receiver = Walk.applyRole p roles role call args receiver := by
  have hselected : ∀ arg ∈ roles.fieldArguments p call, arg < p.nodes.size := by
    intro arg harg
    cases RoleTable.owns_of_mem_fieldArguments harg with
    | child _ hc => exact hp.child_lt hc
    | inner _ _ hc => exact hp.child_lt hc
  unfold Walk.applyRole
  split
  · exact h.openChain hp hcall hargs
  · rename_i record htop
    rw [h.fieldArguments hp hcall, h.checkArguments hp (hreceiver.top_lt htop) hselected]
  · rename_i record htop
    rw [h.fieldArguments hp hcall, h.checkArguments hp (hreceiver.top_lt htop) hselected]
    cases args with
    | nil => rfl
    | cons arg rest =>
      dsimp only
      rw [h.selectRecord hp (hreceiver.top_lt htop) (hargs arg (by simp))]
  · rfl
  · rfl

omit h in
theorem parts_lt {call recv sel : NodeId} {args : List NodeId} (hcall : p.methodCall? call = some (recv, sel, args)) :
    call < p.nodes.size ∧ recv < p.nodes.size ∧ sel < p.nodes.size ∧ ∀ arg ∈ args, arg < p.nodes.size := by
  obtain ⟨callee, spread, hnode, hcallee⟩ := methodCall?_eq_some.1 hcall
  obtain ⟨hrecv, hsel⟩ := hp.selector_lt hcallee
  exact ⟨lt_size_of_node? hnode, hrecv, hsel, (hp.call_lt hnode).2⟩

theorem settle {call recv sel : NodeId} {args : List NodeId} (hcall : p.methodCall? call = some (recv, sel, args))
    {receiver : ChainContext} (hreceiver : receiver.Sound p.types) :
    Walk.settle q roles call sel args receiver = Walk.settle p roles call sel args receiver := by
  obtain ⟨hlt, -, hsel, hargs⟩ := parts_lt hp hcall
  unfold Walk.settle Walk.roleOfName?
  rw [h.identObject? hsel, h.applyRole hp hlt hargs hreceiver]

omit hp in
theorem contextOf (env : Environment) {n : NodeId} (hn : n < p.nodes.size) : env.contextOf q n = env.contextOf p n := by
  unfold Environment.contextOf
  rw [h.identObject? hn]

variable {env : Environment} (henv : env.All (ChainContext.Sound p.types)) {s : WalkState} (hs : Walk.SoundState p s)

include henv hs

/-- A call has the same context, down the chain of its receivers. -/
theorem resolveCall {call : NodeId} (hcall : call < p.nodes.size) :
    Walk.resolveCall q roles env call s = Walk.resolveCall p roles env call s := by
  induction call using Nat.strongRecOn generalizing s with
  | ind call ih =>
    cases hparts : p.methodCall? call with
    | none =>
      rw [Walk.resolveCall_other env hparts, Walk.resolveCall_other env ((h.methodCall? hp hcall).trans hparts)]
    | some parts =>
      obtain ⟨recv, sel, args⟩ := parts
      have hparts' := (h.methodCall? hp hcall).trans hparts
      cases hmemo : s.memo.lookup call with
      | some ctx =>
        rw [Walk.resolveCall_known env hparts hmemo, Walk.resolveCall_known env hparts' hmemo]
      | none =>
        obtain ⟨-, hrecv, -, -⟩ := parts_lt hp hparts
        rw [Walk.resolveCall_new env hparts hmemo, Walk.resolveCall_new env hparts' hmemo]
        refine bind_eq_of_ok ?_ fun receiver t hrun => congrFun (h.settle hp hparts ?_) t
        · unfold Walk.receiverContext
          rw [h.isCall hrecv, h.contextOf env hrecv]
          split
          · split
            · exact ih recv ‹_› hs hrecv
            · rfl
          · rfl
        · unfold Walk.receiverContext at hrun
          split at hrun
          · split at hrun
            · exact ((Walk.invariant_sound.resolveCall henv trivial).of_ok hs hrun).2
            · cases hrun
              trivial
          · cases hrun
            exact henv.contextOf trivial p recv

/-! ### Bindings -/

/-- A value has the same context. -/
theorem valueContext {value : NodeId} (hvalue : value < p.nodes.size) :
    Walk.valueContext q roles env value s = Walk.valueContext p roles env value s := by
  unfold Walk.valueContext
  rw [h.node? hvalue, h.type? hvalue, h.contextOf env hvalue]
  cases p.node? value with
  | none => rfl
  | some node =>
    cases node with
    | call callee args spread =>
      dsimp only
      split
      · exact h.resolveCall hp henv hs hvalue
      · rfl
    | _ => rfl

omit henv hs in
theorem isMultiResult {value : NodeId} (hvalue : value < p.nodes.size) :
    Walk.isMultiResult q value = Walk.isMultiResult p value := by
  unfold Walk.isMultiResult
  rw [h.isCall hvalue, h.calleeSignature? hp hvalue]

omit henv hs in
theorem boundVariable? {target : NodeId} (htarget : target < p.nodes.size) :
    Walk.boundVariable? q roles target = Walk.boundVariable? p roles target := by
  unfold Walk.boundVariable?
  rw [h.identObject? htarget]
  cases hobj : p.identObject? target with
  | none => rfl
  | some obj => simp only [Option.filter_some, h.objectType? (hp.symbol_lt hobj)]

/-- A pair binds alike. -/
theorem bindTarget {target value : NodeId} (htarget : target < p.nodes.size) (hvalue : value < p.nodes.size) :
    Walk.bindTarget q roles env target value s = Walk.bindTarget p roles env target value s := by
  unfold Walk.bindTarget
  rw [h.isMultiResult hp hvalue, h.boundVariable? hp htarget]
  split
  · rfl
  · cases Walk.boundVariable? p roles target with
    | none => rfl
    | some obj => exact bind_eq_of_ok (h.valueContext hp henv hs hvalue) fun _ _ _ => rfl

theorem bindTargets {targets values : List NodeId} (htargets : ∀ n ∈ targets, n < p.nodes.size)
    (hvalues : ∀ n ∈ values, n < p.nodes.size) :
    Walk.bindTargets q roles env targets values s = Walk.bindTargets p roles env targets values s := by
  refine Ensures.foldlM_eq (J := fun env s => Walk.SoundState p s ∧ env.All (ChainContext.Sound p.types))
    (E := fun _ s => Walk.SoundState p s) (fun env' pair _ => ?_) (fun env' pair hpair s hJ => ?_) ⟨hs, henv⟩
  · exact Ensures.assume fun henv' => Walk.invariant_sound.bindTarget henv' pair.1 trivial
  · obtain ⟨htarget, hvalue⟩ := List.of_mem_zip hpair
    exact h.bindTarget hp hJ.2 hJ.1 (htargets _ htarget) (hvalues _ hvalue)

/-! ### The walk -/

theorem enter {n : NodeId} (hn : n < p.nodes.size) : Walk.enter q roles n env s = Walk.enter p roles n env s := by
  unfold Walk.enter
  rw [h.node? hn]
  have hchild : ∀ {node}, p.node? n = some node → ∀ c ∈ node.children, c < p.nodes.size :=
    fun hnode c hc => hp.child_lt (n := n) (by rwa [Program.children_of_node? hnode])
  cases hnode : p.node? n with
  | none => rfl
  | some node =>
    cases node with
    | assign lhs rhs define =>
      exact h.bindTargets hp henv hs (fun m hm => hchild hnode m (List.mem_append_left rhs hm))
        fun m hm => hchild hnode m (List.mem_append_right lhs hm)
    | valueDecl names values =>
      exact h.bindTargets hp henv hs (fun m hm => hchild hnode m (List.mem_append_left values hm))
        fun m hm => hchild hnode m (List.mem_append_right names hm)
    | call => exact bind_eq_of_ok (h.resolveCall hp henv hs hn) fun _ _ _ => rfl
    | _ => rfl

/-- The walk through a node of the program is the same in the longer one. -/
theorem visit {n : NodeId} (hn : n < p.nodes.size) : Walk.visit q roles n env s = Walk.visit p roles n env s := by
  induction n using Nat.strongRecOn generalizing env s with
  | ind n ih =>
    have hblock : Walk.isBlock q n = Walk.isBlock p n := by
      unfold Walk.isBlock
      rw [h.node? hn]
    rw [Walk.visit, Walk.visit, h.subnodes hn, hblock]
    refine bind_eq_of_ok (h.enter hp henv hs hn) fun inner t hrun => bind_eq_of_ok ?_ fun _ _ _ => rfl
    obtain ⟨ht, hinner⟩ := (Walk.invariant_sound.enter henv trivial).of_ok hs hrun
    refine Ensures.foldlM_eq (J := fun env s => Walk.SoundState p s ∧ env.All (ChainContext.Sound p.types))
      (E := fun _ s => Walk.SoundState p s) (fun env' c _ => ?_) (fun env' c hc s hJ => ?_) ⟨ht, hinner⟩
    · exact Ensures.assume fun henv' => Walk.invariant_sound.visit henv' trivial
    · exact ih c.val c.property hJ.2 hJ.1 (Nat.lt_trans c.property hn)

omit henv hs in
/-- A walk takes no number that is out of range. -/
theorem walk : Walk.program q roles {} = Walk.program p roles {} := by
  unfold Walk.program
  rw [h.decls]
  refine Ensures.foldlM_eq (J := fun env s => Walk.SoundState p s ∧ env.All (ChainContext.Sound p.types))
    (E := fun _ s => Walk.SoundState p s) (fun env n _ => ?_) (fun env n hn s hJ => ?_)
    ⟨Walk.soundState_empty, Environment.all_empty⟩
  · exact Ensures.assume fun henv => Walk.invariant_sound.visit henv trivial
  · exact h.visit hp hJ.2 hJ.1 (hp.decls n hn)

end Program.PaddedTo

end FluentChain
