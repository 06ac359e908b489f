import FluentChain.Proofs.Alike.Records
import FluentChain.Proofs.Alike.Roles

/-!
# Walks over programs that are alike

A walk finds the same in two programs that are alike, with roles that are alike: the same contexts, bindings and
diagnostics, node for node, or an error in both (`Walk.together_program`).  Environments and contexts are the same
if they speak of the same symbols and record types.
-/

namespace FluentChain

variable {N : FileNames} {p q : Program}

/-! ### Contexts and environments -/

inductive SameContext (t u : TypeTable) : ChainContext → ChainContext → Prop
  | untracked : SameContext t u .untracked .untracked
  | invalid : SameContext t u .invalid .invalid
  | tracked {top top' : TypeId} {below below' : List TypeId} (htop : t.SameShape u top top')
    (hbelow : List.Forall₂ (t.SameShape u) below below') :
    SameContext t u (.tracked ⟨top, below⟩) (.tracked ⟨top', below'⟩)

namespace SameContext

variable {t u : TypeTable} {ctx ctx' : ChainContext} (h : SameContext t u ctx ctx')

include h

/-- Contexts that are the same point at the same record, if at any. -/
theorem top? : Option.Rel (t.SameShape u) ctx.top? ctx'.top? := by
  cases h with
  | tracked htop hbelow => exact .some htop
  | _ => exact .none

theorem descend {a b : TypeId} (hab : t.SameShape u a b) : SameContext t u (ctx.descend a) (ctx'.descend b) := by
  cases h with
  | tracked htop hbelow => exact .tracked hab (.cons htop hbelow)
  | untracked => exact .untracked
  | invalid => exact .invalid

theorem ascend : SameContext t u ctx.ascend ctx'.ascend := by
  cases h with
  | tracked htop hbelow =>
    cases hbelow with
    | nil => exact .tracked htop .nil
    | cons hnext hbelow => exact .tracked hnext hbelow
  | untracked => exact .untracked
  | invalid => exact .invalid

/-- Nothing is known of one context just where nothing is known of the other. -/
theorem eq_untracked_iff : ctx = .untracked ↔ ctx' = .untracked := by
  cases h <;> simp

end SameContext

/-- The bindings of a scope are the same, one by one. -/
def SameScope (p q : Program) : Scope → Scope → Prop :=
  List.Forall₂ fun x y => p.SameSymbol q x.1 y.1 ∧ SameContext p.types q.types x.2 y.2

structure SameEnvironment (p q : Program) (env env' : Environment) : Prop where
  inner : SameScope p q env.inner env'.inner
  outer : List.Forall₂ (SameScope p q) env.outer env'.outer

namespace SameEnvironment

variable {env env' : Environment}

theorem empty : SameEnvironment p q {} {} := ⟨.nil, .nil⟩

theorem child (henv : SameEnvironment p q env env') : SameEnvironment p q env.child env'.child :=
  ⟨.nil, .cons henv.inner henv.outer⟩

theorem bind (henv : SameEnvironment p q env env') {o o' : ObjId} (ho : p.SameSymbol q o o') {ctx ctx' : ChainContext}
    (hctx : SameContext p.types q.types ctx ctx') : SameEnvironment p q (env.bind o ctx) (env'.bind o' ctx') :=
  ⟨.cons ⟨ho, hctx⟩ henv.inner, henv.outer⟩

/-- A variable is found in the same context, however the two programs number it. -/
theorem lookup? (henv : SameEnvironment p q env env') (h : Program.Alike N p q) {o o' : ObjId}
    (ho : p.SameSymbol q o o') : Option.Rel (SameContext p.types q.types) (env.lookup? o) (env'.lookup? o') := by
  refine rel_filter (rel_findSome? (.cons henv.inner henv.outer) fun scope scope' hscope => ?_) fun ctx ctx' hctx => ?_
  · refine rel_lookup hscope fun c c' hc => ?_
    rw [Bool.eq_iff_iff, beq_iff_eq, beq_iff_eq, h.symbol_eq_iff ho hc]
  · rw [decide_eq_decide]
    exact not_congr hctx.eq_untracked_iff

/-- A name stands for the same context in both programs. -/
theorem contextOf (henv : SameEnvironment p q env env') (h : Program.Alike N p q) (n : NodeId) :
    SameContext p.types q.types (env.contextOf p n) (env'.contextOf q n) :=
  rel_getD (rel_bind (h.identObject? n) fun _ _ ho => henv.lookup? h ho) .untracked

end SameEnvironment

/-! ### States of a walk -/

structure SameResolution (p q : Program) (r r' : Resolution) : Prop where
  call : r.call = r'.call
  receiver : SameContext p.types q.types r.receiver r'.receiver
  context : SameContext p.types q.types r.context r'.context

structure SameState (N : FileNames) (p q : Program) (s s' : WalkState) : Prop where
  resolutions : List.Forall₂ (SameResolution p q) s.resolutions s'.resolutions
  diagnostics : SameDiagnostics N.SamePlace s.diagnostics s'.diagnostics

/-- What two walks that are compared have in common. -/
structure SameWalk (N : FileNames) (p q : Program) (r r' : RoleTable) : Prop where
  programs : Program.Alike N p q
  roles : RoleTable.Alike p q r r'
  unique : Relator.BiUnique N.SamePlace
  shared : 0 < N.shared.length

namespace Walk

variable {α β α' β' : Type}

/-- From states that are the same, both steps go on to states that are the same, with results that `R` relates, or
both fail. -/
def Together (N : FileNames) (p q : Program) (m : Walk α) (m' : Walk β) (R : α → β → Prop) : Prop :=
  ∀ s s', SameState N p q s s' → RunTogether (fun a b s s' => SameState N p q s s' ∧ R a b) (m s) (m' s')

namespace Together

variable {m : Walk α} {m' : Walk β} {R : α → β → Prop}

theorem pure {a : α} {b : β} (h : R a b) : Together N p q (Pure.pure a) (Pure.pure b) R :=
  fun _ _ hs => .ok ⟨hs, h⟩

theorem throw {e e' : CheckError} :
    Together N p q (MonadExcept.throw e : Walk α) (MonadExcept.throw e' : Walk β) R := fun _ _ _ => .error

/-- Steps that run together, one after another, run together. -/
theorem bind {S : α' → β' → Prop} {f : α → Walk α'} {g : β → Walk β'} (h : Together N p q m m' R)
    (hfg : ∀ a b, R a b → Together N p q (f a) (g b) S) : Together N p q (m >>= f) (m' >>= g) S :=
  fun s s' hs => (h s s' hs).bind fun a b s s' ⟨hs, hR⟩ => hfg a b hR s s' hs

/-- A step that reads the state before it. -/
theorem get {f : WalkState → Walk α} {g : WalkState → Walk β}
    (h : ∀ s s', SameState N p q s s' → Together N p q (f s) (g s') R) :
    Together N p q (MonadState.get >>= f) (MonadState.get >>= g) R := fun s s' hs => h s s' hs s s' hs

theorem modify {f g : WalkState → WalkState} (h : ∀ s s', SameState N p q s s' → SameState N p q (f s) (g s')) :
    Together N p q (modify f) (modify g) fun _ _ => True := fun s s' hs => .ok ⟨h s s' hs, trivial⟩

theorem forM {f g : α → Walk PUnit} {l : List α} (h : ∀ a ∈ l, Together N p q (f a) (g a) fun _ _ => True) :
    Together N p q (l.forM f) (l.forM g) fun _ _ => True := by
  induction l with
  | nil => exact pure trivial
  | cons a l ih => exact bind (h a (by simp)) fun _ _ _ => ih fun b hb => h b (by simp [hb])

/-- Loops run together if their rounds do, on results that are related before. -/
theorem foldlM {γ : Type} {f : α → γ → Walk α} {g : β → γ → Walk β} {l : List γ}
    (h : ∀ a b, ∀ c ∈ l, R a b → Together N p q (f a c) (g b c) R) {a : α} {b : β} (hab : R a b) :
    Together N p q (l.foldlM f a) (l.foldlM g b) R := by
  induction l generalizing a b with
  | nil => exact pure hab
  | cons c l ih =>
    rw [List.foldlM_cons, List.foldlM_cons]
    exact bind (h a b c (by simp) hab) fun a b hab => ih (fun a b d hd => h a b d (by simp [hd])) hab

end Together

variable {r r' : RoleTable} (h : SameWalk N p q r r')

include h

/-! ### Examining field references -/

omit h in
theorem together_mark (n : NodeId) : Together N p q (mark n) (mark n) fun _ _ => True :=
  Together.modify fun _ _ hs => ⟨hs.resolutions, hs.diagnostics.mark n⟩

omit h in
/-- What is reported may name places in the files by other numbers. -/
theorem together_report (n : NodeId) {d d' : Diagnostic} (hd : SameDiagnostic N.SamePlace d d') :
    Together N p q (report n d) (report n d') fun _ _ => True :=
  Together.modify fun _ _ hs => ⟨hs.resolutions, hs.diagnostics.push n hd⟩

theorem samePlace (n : NodeId) : N.SamePlace (p.pos n) (q.pos n) := h.programs.samePlace h.shared n

theorem together_reportTable (n : NodeId) {e e' : FieldTableError} (he : SameTableError N.SamePlace e e') :
    Together N p q (reportTable p n e) (reportTable q n e') fun _ _ => True := by
  have hd : SameDiagnostic N.SamePlace ⟨.noTable e, e.pos.getD (p.pos n), e.reference⟩
      ⟨.noTable e', e'.pos.getD (q.pos n), e'.reference⟩ :=
    ⟨.noTable he, rel_getD he.pos (samePlace h n), he.reference⟩
  refine Together.get fun s s' hs => ?_
  -- the error is known for one expression exactly if it is known for the other
  have hmem := List.rel_mem (sameDiagnostic_unique h.unique) hd (hs.diagnostics.foundAt n)
  by_cases hfound : (⟨.noTable e', e'.pos.getD (q.pos n), e'.reference⟩ : Diagnostic) ∈ s'.diagnostics.foundAt n
  · rw [if_pos hfound, if_pos (hmem.2 hfound)]
    exact Together.pure trivial
  · rw [if_neg hfound, if_neg (mt hmem.1 hfound)]
    exact together_report n hd

/-- A record is declared at the same place. -/
theorem declaredAt_alike {a b : TypeId} (hab : p.types.SameShape q.types a b) :
    Option.Rel N.SamePlace (declaredAt p a) (declaredAt q b) :=
  rel_bind (h.programs.types.decl? hab.sameType) fun _ _ hdecl => hdecl.pos

/-- A record has the same field table in both programs; where a key repeats, the same fields are to blame. -/
theorem fieldTable_alike {a b : TypeId} (hab : p.types.SameShape q.types a b) :
    EndTogether (SameTable N.SamePlace p.types q.types) (SameTableError N.SamePlace) (fieldTable p r a)
      (fieldTable q r' b) := by
  unfold fieldTable
  rw [h.roles.tag]
  exact FieldTable.ofType_alike h.programs.types r'.tag hab.sameType

theorem recordOf?_alike (n : NodeId) : Option.Rel (p.types.SameShape q.types) (recordOf? p n) (recordOf? q n) :=
  rel_bind (h.programs.type? n) fun _ _ hab => h.programs.types.recordType? hab

theorem offsetSelector?_alike (args : List NodeId) : offsetSelector? p args = offsetSelector? q args := by
  unfold offsetSelector?
  cases args with
  | nil => rfl
  | cons arg args =>
    dsimp only [List.head?_cons, Option.bind_eq_bind, Option.bind_some]
    rcases h.programs.node?_eq_or_ident arg with heq | ⟨name, o, o', isDef, hp, hq⟩
    · rw [heq]
    · rw [hp, hq]

omit h in
theorem together_decodeLiteral (n : NodeId) (raw : String) :
    Together N p q (decodeLiteral p n raw) (decodeLiteral q n raw) fun text text' => text = text' := by
  unfold decodeLiteral
  split
  · exact Together.pure rfl
  · exact Together.throw

/-- A reference is looked up in the same table.  It is marked in both runs, and the same faults are found. -/
theorem together_checkReference {a b : TypeId} (hab : p.types.SameShape q.types a b) (n : NodeId) :
    Together N p q (checkReference p r a n) (checkReference q r' b n) fun _ _ => True := by
  unfold checkReference
  rw [RoleTable.reference?_alike h.programs h.roles n]
  split
  · rename_i raw _
    refine (together_mark n).bind fun _ _ _ => ?_
    have htable := fieldTable_alike h hab
    revert htable
    generalize fieldTable p r a = x, fieldTable q r' b = y
    rintro (htable | he)
    · refine (together_decodeLiteral n raw).bind ?_
      rintro text _ rfl
      rw [← Option.not_isSome, ← Option.not_isSome, isSome_eq_of_rel (FieldTable.get?_alike htable text)]
      split
      · exact together_report n ⟨.fieldNotFound, samePlace h n, declaredAt_alike h hab⟩
      · exact Together.pure trivial
    · exact together_reportTable h n he
  · refine (together_mark n).bind fun _ _ _ => ?_
    rw [offsetSelector?_alike h]
    split
    · rename_i arg x _ _
      have hrecord : recordOf? p x = some a ↔ recordOf? q x = some b :=
        eq_some_iff_of_rel (recordOf?_alike h x) fun _ _ hcd => h.programs.types.eq_iff hcd.sameType hab
      simp only [ne_eq, hrecord]
      split
      · exact together_report n ⟨.typeMismatch, samePlace h arg, declaredAt_alike h hab⟩
      · exact Together.pure trivial
    · exact Together.pure trivial
  · exact Together.pure trivial

theorem together_checkArguments {a b : TypeId} (hab : p.types.SameShape q.types a b) (args : List NodeId) :
    Together N p q (checkArguments p r a args) (checkArguments q r' b args) fun _ _ => True := by
  unfold checkArguments
  rw [List.flatMap_congr fun n _ => RoleTable.references_alike h.programs h.roles n]
  exact Together.forM fun n _ => together_checkReference h hab n

/-- An argument selects the same record in both runs, or none in both. -/
theorem together_selectRecord {a b : TypeId} (hab : p.types.SameShape q.types a b) (n : NodeId) :
    Together N p q (selectRecord p r a n) (selectRecord q r' b n) (Option.Rel (p.types.SameShape q.types)) := by
  unfold selectRecord
  rw [RoleTable.reference?_alike h.programs h.roles n]
  split
  · rename_i raw _
    refine (together_mark n).bind fun _ _ _ => ?_
    have htable := fieldTable_alike h hab
    revert htable
    generalize fieldTable p r a = x, fieldTable q r' b = y
    rintro (htable | he)
    · refine (together_decodeLiteral n raw).bind ?_
      rintro text _ rfl
      have hrecord : Option.Rel (p.types.SameShape q.types) _ _ :=
        rel_bind (FieldTable.get?_alike htable text) fun _ _ hf => hf.record
      revert hrecord
      generalize Option.bind _ RecordField.record = x, Option.bind _ RecordField.record = y
      rintro (hcd | _)
      · exact Together.pure (.some hcd)
      · exact (together_report n ⟨.notAStructField, samePlace h n, .none⟩).bind fun _ _ _ => Together.pure .none
    · exact (together_reportTable h n he).bind fun _ _ _ => Together.pure .none
  · refine (together_mark n).bind fun _ _ _ => ?_
    rw [offsetSelector?_alike h]
    split
    · rename_i arg _ sel _
      have hrecord := recordOf?_alike h arg
      revert hrecord
      generalize recordOf? p arg = x, recordOf? q arg = y
      rintro (hcd | _)
      · exact Together.pure (.some hcd)
      · exact (together_report n ⟨.notAStructField, samePlace h sel, .none⟩).bind fun _ _ _ => Together.pure .none
    · exact Together.pure .none
  · exact Together.pure .none

/-! ### Contexts of calls -/

/-- Steps whose results are contexts, and these are the same. -/
abbrev SameContexts (N : FileNames) (p q : Program) (m m' : Walk ChainContext) : Prop :=
  Together N p q m m' (SameContext p.types q.types)

/-- A chain is opened on the same record, or fails in both runs. -/
theorem together_openChain (call : NodeId) (args : List NodeId) :
    SameContexts N p q (openChain p call args) (openChain q call args) := by
  unfold openChain
  dsimp only
  split
  · exact Together.throw
  · rename_i arg _
    have htype := h.programs.type? arg
    revert htype
    generalize p.type? arg = x, q.type? arg = y
    rintro (hab | _)
    · have hrecord := h.programs.types.recordType? hab
      dsimp only
      revert hrecord
      generalize p.types.recordType? _ = x, q.types.recordType? _ = y
      rintro (hcd | _)
      · exact Together.pure (.tracked hcd .nil)
      · exact Together.throw
    · exact Together.throw

/-- A call takes the context of its receiver to the same context, whatever role it has. -/
theorem together_applyRole (role : Option Role) (call : NodeId) (args : List NodeId) {ctx ctx' : ChainContext}
    (hctx : SameContext p.types q.types ctx ctx') :
    SameContexts N p q (applyRole p r role call args ctx) (applyRole q r' role call args ctx') := by
  have htop := hctx.top?
  have hargs := RoleTable.fieldArguments_alike h.programs h.roles call
  unfold applyRole
  rw [hargs]
  revert htop
  generalize ctx.top? = x, ctx'.top? = y
  rintro (hab | _)
  · cases role with
    | none => exact Together.pure hctx
    | some role =>
      cases role with
      | entry => exact together_openChain h call args
      | preserve => exact (together_checkArguments h hab _).bind fun _ _ _ => Together.pure hctx
      | descend =>
        refine (together_checkArguments h hab _).bind fun _ _ _ => ?_
        cases args with
        | nil => exact Together.pure .invalid
        | cons arg args =>
          refine (together_selectRecord h hab arg).bind ?_
          rintro _ _ (hcd | _)
          · exact Together.pure (hctx.descend hcd)
          · exact Together.pure .invalid
      | ascend => exact Together.pure hctx.ascend
  · cases role with
    | none => exact Together.pure hctx
    | some role =>
      cases role with
      | entry => exact together_openChain h call args
      | _ => exact Together.pure hctx

/-- A method has the same role in both tables, however the programs number it. -/
theorem roleOfName?_alike (sel : NodeId) : roleOfName? p r sel = roleOfName? q r' sel := by
  have ho := h.programs.identObject? sel
  unfold roleOfName?
  revert ho
  generalize p.identObject? sel = x, q.identObject? sel = y
  rintro (ho | _)
  · exact h.roles.roleOf? ho
  · rfl

theorem together_settle (call sel : NodeId) (args : List NodeId) {ctx ctx' : ChainContext}
    (hctx : SameContext p.types q.types ctx ctx') :
    SameContexts N p q (settle p r call sel args ctx) (settle q r' call sel args ctx') := by
  unfold settle
  rw [roleOfName?_alike h]
  refine (together_applyRole h _ call args hctx).bind fun c c' hc => ?_
  refine (Together.modify fun s s' hs => ?_).bind fun _ _ _ => Together.pure hc
  exact ⟨.cons ⟨rfl, hctx, hc⟩ hs.resolutions, hs.diagnostics⟩

omit h in
theorem memo_alike {s s' : WalkState} (hs : SameState N p q s s') (call : NodeId) :
    Option.Rel (SameContext p.types q.types) (s.memo.lookup call) (s'.memo.lookup call) := by
  refine rel_lookup (rel_map_list hs.resolutions fun r r' hr => ⟨hr.call, hr.context⟩) ?_
  rintro c _ rfl
  rfl

/-- A call has the same context in both runs, whether it is met for the first time or not. -/
theorem together_resolveCall {env env' : Environment} (henv : SameEnvironment p q env env') (call : NodeId) :
    SameContexts N p q (resolveCall p r env call) (resolveCall q r' env' call) := by
  induction call using Nat.strongRecOn with
  | _ call ih =>
    rw [resolveCall, resolveCall, h.programs.methodCall? call]
    split
    · exact Together.pure .untracked
    · rename_i recv sel args _
      refine Together.get fun s s' hs => ?_
      have hmemo := memo_alike hs call
      revert hmemo
      generalize s.memo.lookup call = x, s'.memo.lookup call = y
      rintro (hctx | _)
      · exact Together.pure hctx
      · have hsettle : ∀ ctx ctx', SameContext p.types q.types ctx ctx' →
            SameContexts N p q (settle p r call sel args ctx) (settle q r' call sel args ctx') :=
          fun _ _ => together_settle h call sel args
        dsimp only
        rw [h.programs.isCall recv]
        split
        · split
          · rename_i hlt
            exact (ih recv hlt).bind hsettle
          · exact (Together.pure .untracked).bind hsettle
        · exact (Together.pure (henv.contextOf h.programs recv)).bind hsettle

/-! ### Bindings -/

theorem isMultiResult_alike (value : NodeId) : isMultiResult p value = isMultiResult q value := by
  have hsig := h.programs.calleeSignature? value
  unfold isMultiResult
  rw [h.programs.isCall value]
  revert hsig
  generalize p.calleeSignature? value = x, q.calleeSignature? value = y
  rintro (hsig | _)
  · rw [Option.any_some, Option.any_some, hsig.results.length_eq]
  · rfl

/-- A value has the same context, be it a call or a name. -/
theorem together_valueContext {env env' : Environment} (henv : SameEnvironment p q env env') (value : NodeId) :
    SameContexts N p q (valueContext p r env value) (valueContext q r' env' value) := by
  have htype : p.type? value = some r.builder ↔ q.type? value = some r'.builder :=
    eq_some_iff_of_rel (h.programs.type? value) fun _ _ hab => h.programs.types.eq_iff hab h.roles.builder
  unfold valueContext
  rcases h.programs.node?_eq_or_ident value with heq | ⟨name, o, o', isDef, hp, hq⟩
  · rw [heq]
    split
    · simp only [htype]
      split
      · exact together_resolveCall h henv value
      · exact Together.pure .untracked
    · exact Together.pure (henv.contextOf h.programs value)
    · exact Together.pure (henv.contextOf h.programs value)
    · exact Together.pure .untracked
  · rw [hp, hq]
    exact Together.pure (henv.contextOf h.programs value)

theorem boundVariable?_alike (target : NodeId) :
    Option.Rel (p.SameSymbol q) (boundVariable? p r target) (boundVariable? q r' target) := by
  refine rel_filter (h.programs.identObject? target) fun o o' ho => ?_
  rw [Bool.eq_iff_iff, beq_iff_eq, beq_iff_eq]
  exact eq_some_iff_of_rel (h.programs.objectType? ho) fun _ _ hab => h.programs.types.eq_iff hab h.roles.builder

/-- A pair binds the same variable to the same context, or nothing in both runs. -/
theorem together_bindTarget {env env' : Environment} (henv : SameEnvironment p q env env') (target value : NodeId) :
    Together N p q (bindTarget p r env target value) (bindTarget q r' env' target value) (SameEnvironment p q) := by
  unfold bindTarget
  rw [isMultiResult_alike h]
  split
  · exact Together.pure henv
  · have hvar := boundVariable?_alike h target
    revert hvar
    generalize boundVariable? p r target = x, boundVariable? q r' target = y
    rintro (ho | _)
    · exact (together_valueContext h henv value).bind fun ctx ctx' hctx => Together.pure (henv.bind ho hctx)
    · exact Together.pure henv

theorem together_bindTargets {env env' : Environment} (henv : SameEnvironment p q env env')
    (targets values : List NodeId) :
    Together N p q (bindTargets p r env targets values) (bindTargets q r' env' targets values) (SameEnvironment p q) :=
  Together.foldlM (fun _ _ x _ henv => together_bindTarget h henv x.1 x.2) henv

/-! ### The walk -/

theorem together_enter (n : NodeId) {env env' : Environment} (henv : SameEnvironment p q env env') :
    Together N p q (enter p r n env) (enter q r' n env') (SameEnvironment p q) := by
  unfold enter
  rcases h.programs.node?_eq_or_ident n with heq | ⟨name, o, o', isDef, hp, hq⟩
  · rw [heq]
    split
    · exact Together.pure henv.child
    · exact together_bindTargets h henv _ _
    · exact together_bindTargets h henv _ _
    · exact (together_resolveCall h henv n).bind fun _ _ _ => Together.pure henv
    · exact Together.pure henv
  · rw [hp, hq]
    exact Together.pure henv

theorem isBlock_alike (n : NodeId) : isBlock p n = isBlock q n := by
  unfold isBlock
  rcases h.programs.node?_eq_or_ident n with heq | ⟨name, o, o', isDef, hp, hq⟩
  · rw [heq]
  · rw [hp, hq]

/-- The walk through a node leaves the same state and the same environment, or fails in both runs. -/
theorem together_visit (n : NodeId) {env env' : Environment} (henv : SameEnvironment p q env env') :
    Together N p q (visit p r n env) (visit q r' n env') (SameEnvironment p q) := by
  induction n using Nat.strongRecOn generalizing env env' with
  | _ n ih =>
    rw [visit, visit, h.programs.subnodes n, isBlock_alike h]
    refine (together_enter h n henv).bind fun inner inner' hinner => ?_
    have hchildren := Together.foldlM (R := SameEnvironment p q) (l := q.subnodes n)
      (f := fun env c => visit p r c.1 env) (g := fun env c => visit q r' c.1 env)
      (fun env env' c _ henv => ih c.1 c.2 henv) hinner
    refine hchildren.bind fun after after' hafter => ?_
    split
    · exact Together.pure henv
    · exact Together.pure hafter

/-- The walks over two programs that are alike find the same. -/
theorem together_program : Together N p q (program p r) (program q r') (SameEnvironment p q) := by
  unfold program
  rw [h.programs.decls]
  exact Together.foldlM (fun _ _ n _ henv => together_visit h n henv) .empty

end Walk

end FluentChain
