import Mathlib.Data.List.Duplicate
import Mathlib.Data.List.Induction
import Mathlib.Data.List.NodupEquivFin
import Mathlib.Logic.Function.Basic
import FluentChain.Chain.Environment

/-!
# Environments and flat maps

Environments are made from one another: as a child with a new scope, or as a clone.  To a reader each of them is one
flat map from variables to contexts, which a child or a clone copies as a whole, and a binding overwrites one entry of
one map.  An entry that holds the untracked context counts as absent (`lookup?_of_operations`).

The scopes of all environments can also be stored once, on a heap, where a scope points to the one around it and
environments share what they have in common.  A binding then writes into a scope that nothing else holds, and into a
copy of a scope that is shared.  The heap is looked up as the environments are, whatever is done to it.
-/

namespace FluentChain

namespace Environment

/-- A step in the making of environments, which are known by their places in the order they are made. -/
inductive Operation
  | new
  | child (env : Nat)
  | clone (env : Nat)
  | bind (env : Nat) (obj : ObjId) (ctx : ChainContext)
deriving DecidableEq, Repr

/-- The scopes of an environment, from the innermost outwards. -/
def scopes (env : Environment) : List Scope := env.inner :: env.outer

theorem scopes_bind {env : Environment} {inner : Scope} {outer : List Scope} (h : inner :: outer = env.scopes)
    (obj : ObjId) (ctx : ChainContext) : ((obj, ctx) :: inner) :: outer = (env.bind obj ctx).scopes := by
  obtain ⟨rfl, rfl⟩ := List.cons.inj h
  rfl

namespace Operation

/-- What an operation does to environments of which each is a value of its own.  There is none at a place that no
environment has been made at, and an operation on none does nothing. -/
def perform {Form : Type} (empty : Form) (child : Form → Form) (bind : Form → ObjId → ChainContext → Form)
    (made : List Form) : Operation → List Form
  | .new => made ++ [empty]
  | .child env => made ++ (made[env]?.map child).toList
  | .clone env => made ++ made[env]?.toList
  | .bind env obj ctx => made.modify env fun form => bind form obj ctx

def onEnvironments : List Environment → Operation → List Environment := perform {} Environment.child Environment.bind

/-- What an operation does to flat maps: a child is a copy, and so is a clone. -/
def onMaps : List (ObjId → Option ChainContext) → Operation → List (ObjId → Option ChainContext) :=
  perform (fun _ => none) id fun map obj ctx => Function.update map obj (some ctx)

end Operation

/-- The environments that a list of operations makes. -/
def made (ops : List Operation) : List Environment := ops.foldl Operation.onEnvironments []

/-- The flat maps that a list of operations makes. -/
def madeMaps (ops : List Operation) : List (ObjId → Option ChainContext) := ops.foldl Operation.onMaps []

/-- What the flat map at a place holds for a variable; the untracked context counts as absent. -/
def mapLookup? (maps : List (ObjId → Option ChainContext)) (env : Nat) (obj : ObjId) : Option ChainContext :=
  (maps[env]?.bind fun map => map obj).filter (· ≠ .untracked)

theorem binding?_bind (env : Environment) (obj : ObjId) (ctx : ChainContext) :
    (env.bind obj ctx).binding? = Function.update env.binding? obj (some ctx) := by
  funext other
  by_cases h : other = obj
  · rw [h, binding?_bind_self, Function.update_self]
  · rw [binding?_bind_of_ne env h, Function.update_of_ne h]

theorem map_binding?_onEnvironments (envs : List Environment) (op : Operation) :
    (op.onEnvironments envs).map binding? = op.onMaps (envs.map binding?) := by
  cases op with
  | new => exact List.map_append
  | child env =>
    show (envs ++ (envs[env]?.map Environment.child).toList).map binding? =
      envs.map binding? ++ ((envs.map binding?)[env]?.map id).toList
    rw [List.map_append, ← Option.toList_map, Option.map_map, List.getElem?_map, Option.map_map]
    rfl
  | clone env =>
    show (envs ++ envs[env]?.toList).map binding? = envs.map binding? ++ (envs.map binding?)[env]?.toList
    rw [List.map_append, ← Option.toList_map, List.getElem?_map]
  | bind env obj ctx =>
    refine List.ext_getElem? fun i => ?_
    show ((envs.modify env fun e => e.bind obj ctx).map binding?)[i]? =
      ((envs.map binding?).modify env fun map => Function.update map obj (some ctx))[i]?
    rw [List.getElem?_map, List.getElem?_modify, List.getElem?_modify, List.getElem?_map]
    cases envs[i]? with
    | none => rfl
    | some e =>
      by_cases h : env = i
      · simp [h, binding?_bind]
      · simp [h]

/-- An environment's bindings are the flat map at its place. -/
theorem map_binding?_made (ops : List Operation) : (made ops).map binding? = madeMaps ops := by
  induction ops using List.reverseRecOn with
  | nil => rfl
  | append_singleton ops op ih =>
    rw [made, madeMaps, List.foldl_concat, List.foldl_concat, ← madeMaps, ← ih, ← map_binding?_onEnvironments, made]

theorem lookup?_made (ops : List Operation) (env : Nat) (obj : ObjId) :
    (made ops)[env]?.bind (fun e => e.lookup? obj) = mapLookup? (madeMaps ops) env obj := by
  rw [← map_binding?_made, mapLookup?, List.getElem?_map]
  cases (made ops)[env]? <;> rfl

/-- A binding is seen in one variable of one map. -/
theorem mapLookup?_bind (maps : List (ObjId → Option ChainContext)) {env other : Nat} {obj var : ObjId}
    (h : other ≠ env ∨ var ≠ obj) (ctx : ChainContext) :
    mapLookup? ((Operation.bind env obj ctx).onMaps maps) other var = mapLookup? maps other var := by
  unfold mapLookup?
  rw [Operation.onMaps, Operation.perform, List.getElem?_modify]
  cases maps[other]? with
  | none => rfl
  | some map =>
    by_cases henv : env = other
    · have hvar : var ≠ obj := h.resolve_left fun hne => hne henv.symm
      simp [henv, Function.update_of_ne hvar]
    · simp [henv]

end Environment

/-! ### Scopes on a heap -/

/-- A scope as it is stored: its bindings, and where the scope around it is. -/
structure StoredScope where
  bindings : Scope := []
  around : Option Nat := none
deriving DecidableEq, Repr

def StoredScope.bind (scope : StoredScope) (obj : ObjId) (ctx : ChainContext) : StoredScope :=
  { scope with bindings := (obj, ctx) :: scope.bindings }

/-- The scopes on the heap from the place `c` outwards.  Scopes point to earlier ones only. -/
def storedScopes (cells : List StoredScope) (c : Nat) : List Scope :=
  match cells[c]? with
  | none => []
  | some scope =>
    match scope.around with
    | none => [scope.bindings]
    | some around => scope.bindings :: if around < c then storedScopes cells around else []
termination_by c

/-- The lookup of a variable from the place `c` on: it ends at the first scope that binds the variable. -/
def storedLookup? (cells : List StoredScope) (c : Nat) (obj : ObjId) : Option ChainContext :=
  match cells[c]? with
  | none => none
  | some scope =>
    match scope.bindings.lookup obj with
    | some ctx => if ctx = .untracked then none else some ctx
    | none =>
      match scope.around with
      | none => none
      | some around => if around < c then storedLookup? cells around obj else none
termination_by c

theorem storedLookup?_eq (cells : List StoredScope) (c : Nat) (obj : ObjId) :
    storedLookup? cells c obj =
      ((storedScopes cells c).findSome? fun scope => scope.lookup obj).filter (· ≠ .untracked) := by
  fun_induction storedScopes cells c with
  | case1 c hcell => rw [storedLookup?, hcell]; rfl
  | case2 c scope hcell haround =>
    rw [storedLookup?, hcell]
    cases hbound : scope.bindings.lookup obj with
    | none => simp [hbound, haround]
    | some ctx => simp [hbound, Option.filter_some]
  | case3 c scope hcell around haround ih =>
    rw [storedLookup?, hcell]
    cases hbound : scope.bindings.lookup obj with
    | none =>
      by_cases hlt : around < c
      · simp [hbound, haround, hlt, ih hlt]
      · simp [hbound, haround, hlt]
    | some ctx => simp [hbound, Option.filter_some]

/-- Only the scopes that are met on the way outwards matter. -/
theorem storedScopes_congr {cells cells' : List StoredScope} (Met : Nat → Prop)
    (hout : ∀ c scope around, Met c → cells[c]? = some scope → scope.around = some around → around < c → Met around)
    (hsame : ∀ c, Met c → cells'[c]? = cells[c]?) {c : Nat} (hc : Met c) :
    storedScopes cells' c = storedScopes cells c := by
  fun_induction storedScopes cells c with
  | case1 c hcell => rw [storedScopes, hsame c hc, hcell]
  | case2 c scope hcell haround =>
    rw [storedScopes, hsame c hc, hcell]
    simp [haround]
  | case3 c scope hcell around haround ih =>
    rw [storedScopes, hsame c hc, hcell]
    by_cases hlt : around < c
    · simp [haround, hlt, ih hlt (hout c scope around hc hcell haround hlt)]
    · simp [haround, hlt]

/-- The scopes around a scope. -/
def scopesAround (cells : List StoredScope) : Option Nat → List Scope
  | none => []
  | some around => storedScopes cells around

theorem storedScopes_eq {cells : List StoredScope} {c : Nat} {scope : StoredScope} (hcell : cells[c]? = some scope)
    (haround : ∀ around, scope.around = some around → around < c) :
    storedScopes cells c = scope.bindings :: scopesAround cells scope.around := by
  rw [storedScopes, hcell]
  cases hscope : scope.around with
  | none => simp [hscope, scopesAround]
  | some around => simp [hscope, scopesAround, haround around hscope]

theorem storedScopes_append {cells : List StoredScope} {c : Nat} (hc : c < cells.length) (more : List StoredScope) :
    storedScopes (cells ++ more) c = storedScopes cells c :=
  storedScopes_congr (· < cells.length) (fun _ _ _ hc _ _ hlt => hlt.trans hc)
    (fun _ hc => List.getElem?_append_left hc) hc

/-- A change to a scope that no scope points to is seen from that scope only. -/
theorem storedScopes_modify_of_ne {cells : List StoredScope} {c d : Nat}
    (hfree : ∀ scope ∈ cells, scope.around ≠ some c) (hne : d ≠ c) (change : StoredScope → StoredScope) :
    storedScopes (cells.modify c change) d = storedScopes cells d :=
  storedScopes_congr (· ≠ c)
    (fun _ scope _ _ hcell haround _ heq => hfree scope (List.mem_of_getElem? hcell) (heq ▸ haround))
    (fun _ hne => List.getElem?_modify_ne _ _ hne.symm) hne

/-- The heap of scopes, and where the innermost scope of each environment is. -/
structure ScopeHeap where
  cells : List StoredScope := []
  handles : List Nat := []
deriving DecidableEq, Repr

namespace ScopeHeap

/-- How many environments and scopes hold the scope at `c`. -/
def holders (heap : ScopeHeap) (c : Nat) : Nat :=
  heap.handles.count c + heap.cells.countP (·.around == some c)

/-- Gives a new environment the new scope `scope`. -/
def push (heap : ScopeHeap) (scope : StoredScope) : ScopeHeap :=
  ⟨heap.cells ++ [scope], heap.handles ++ [heap.cells.length]⟩

/-- Binds a variable in the innermost scope of an environment; in a copy of it, if it is shared. -/
def bind (heap : ScopeHeap) (env : Nat) (obj : ObjId) (ctx : ChainContext) : ScopeHeap :=
  match heap.handles[env]? with
  | none => heap
  | some c =>
    if heap.holders c = 1 then { heap with cells := heap.cells.modify c fun scope => scope.bind obj ctx }
    else
      match heap.cells[c]? with
      | none => heap
      | some scope => ⟨heap.cells ++ [scope.bind obj ctx], heap.handles.set env heap.cells.length⟩

def perform (heap : ScopeHeap) : Environment.Operation → ScopeHeap
  | .new => heap.push {}
  | .child env =>
    match heap.handles[env]? with
    | some c => heap.push { around := some c }
    | none => heap
  | .clone env => { heap with handles := heap.handles ++ heap.handles[env]?.toList }
  | .bind env obj ctx => heap.bind env obj ctx

/-- The heap that a list of operations makes. -/
def made (ops : List Environment.Operation) : ScopeHeap := ops.foldl perform {}

/-- The lookup of a variable in the environment at a place. -/
def lookup? (heap : ScopeHeap) (env : Nat) (obj : ObjId) : Option ChainContext :=
  heap.handles[env]?.bind fun c => storedLookup? heap.cells c obj

/-- Everything that is held is there, and scopes point to earlier ones. -/
structure WellFormed (heap : ScopeHeap) : Prop where
  handle_lt : ∀ {c}, c ∈ heap.handles → c < heap.cells.length
  around_lt : ∀ {c : Nat} {scope : StoredScope} {around : Nat},
    heap.cells[c]? = some scope → scope.around = some around → around < c

/-- The heap holds the scopes of these environments, one by one. -/
structure Stores (heap : ScopeHeap) (envs : List Environment) : Prop where
  wellFormed : heap.WellFormed
  scopes : heap.handles.map (storedScopes heap.cells) = envs.map Environment.scopes

variable {heap : ScopeHeap} {envs : List Environment}

theorem WellFormed.push (h : heap.WellFormed) (scope : StoredScope)
    (haround : ∀ around, scope.around = some around → around < heap.cells.length) : (heap.push scope).WellFormed where
  handle_lt := by
    intro c hc
    rw [ScopeHeap.push, List.length_append, List.length_singleton]
    rcases List.mem_append.1 hc with hc | hc
    · exact Nat.lt_succ_of_lt (h.handle_lt hc)
    · rw [List.mem_singleton.1 hc]
      exact Nat.lt_succ_self _
  around_lt := by
    intro c stored around hcell hstored
    rw [ScopeHeap.push, List.getElem?_append] at hcell
    by_cases hlt : c < heap.cells.length
    · rw [if_pos hlt] at hcell
      exact h.around_lt hcell hstored
    · rw [if_neg hlt] at hcell
      obtain rfl : stored = scope := List.mem_singleton.1 (List.mem_of_getElem? hcell)
      exact (haround around hstored).trans_le (Nat.le_of_not_lt hlt)

/-- A binding in place changes no link. -/
theorem WellFormed.bindInPlace (h : heap.WellFormed) (c : Nat) (obj : ObjId) (ctx : ChainContext) :
    WellFormed { heap with cells := heap.cells.modify c fun scope => scope.bind obj ctx } where
  handle_lt hc := by
    rw [List.length_modify]
    exact h.handle_lt hc
  around_lt := by
    intro d stored around hcell hstored
    rw [List.getElem?_modify] at hcell
    obtain ⟨scope, hscope, hchange⟩ := Option.map_eq_some_iff.1 hcell
    refine h.around_lt hscope ?_
    rw [← hstored, ← hchange]
    split <;> rfl

theorem WellFormed.bindCopy (h : heap.WellFormed) {c : Nat} {scope : StoredScope} (hcell : heap.cells[c]? = some scope)
    (env : Nat) (obj : ObjId) (ctx : ChainContext) :
    WellFormed ⟨heap.cells ++ [scope.bind obj ctx], heap.handles.set env heap.cells.length⟩ := by
  have hpush := h.push (scope.bind obj ctx) fun around haround =>
    (h.around_lt hcell haround).trans (List.getElem?_eq_some_iff.1 hcell).1
  refine ⟨fun hc => ?_, hpush.around_lt⟩
  rcases List.mem_or_eq_of_mem_set hc with hc | rfl
  · exact hpush.handle_lt (List.mem_append_left _ hc)
  · exact hpush.handle_lt (List.mem_append_right _ (List.mem_singleton_self _))

theorem WellFormed.exists_cell (h : heap.WellFormed) {c : Nat} (hc : c ∈ heap.handles) :
    ∃ scope, heap.cells[c]? = some scope :=
  ⟨_, List.getElem?_eq_getElem (h.handle_lt hc)⟩

/-- A scope with a single holder is held by one environment, and by no scope. -/
theorem sole_of_holders {env c : Nat} (hone : heap.holders c = 1) (hc : heap.handles[env]? = some c) :
    (∀ {other}, heap.handles[other]? = some c → other = env) ∧ ∀ scope ∈ heap.cells, scope.around ≠ some c := by
  have hpos : 0 < heap.handles.count c := List.count_pos_iff.2 (List.mem_of_getElem? hc)
  unfold holders at hone
  constructor
  · intro other hother
    by_contra hne
    have htwice : List.Duplicate c heap.handles := by
      obtain ⟨henv, hc⟩ := List.getElem?_eq_some_iff.1 hc
      obtain ⟨hlt, hother⟩ := List.getElem?_eq_some_iff.1 hother
      rcases Nat.lt_or_gt_of_ne hne with hbefore | hbehind
      · exact List.duplicate_iff_exists_distinct_get.2
          ⟨⟨other, hlt⟩, ⟨env, henv⟩, hbefore, hother.symm, hc.symm⟩
      · exact List.duplicate_iff_exists_distinct_get.2
          ⟨⟨env, henv⟩, ⟨other, hlt⟩, hbehind, hc.symm, hother.symm⟩
    have := List.duplicate_iff_two_le_count.1 htwice
    omega
  · have hnone : heap.cells.countP (·.around == some c) = 0 := by omega
    intro scope hscope heq
    exact List.countP_eq_zero.1 hnone scope hscope (beq_iff_eq.2 heq)

namespace Stores

theorem getElem? (h : heap.Stores envs) (env : Nat) :
    heap.handles[env]?.map (storedScopes heap.cells) = envs[env]?.map Environment.scopes := by
  rw [← List.getElem?_map, h.scopes, List.getElem?_map]

theorem exists_of_handle (h : heap.Stores envs) {env c : Nat} (hc : heap.handles[env]? = some c) :
    ∃ e, envs[env]? = some e ∧ storedScopes heap.cells c = e.scopes := by
  have heq := h.getElem? env
  rw [hc, Option.map_some, eq_comm, Option.map_eq_some_iff] at heq
  obtain ⟨e, he, hscopes⟩ := heq
  exact ⟨e, he, hscopes.symm⟩

theorem eq_none_of_handle (h : heap.Stores envs) {env : Nat} (hc : heap.handles[env]? = none) : envs[env]? = none := by
  have heq := h.getElem? env
  rw [hc, Option.map_none, eq_comm, Option.map_eq_none_iff] at heq
  exact heq

theorem push (h : heap.Stores envs) (scope : StoredScope) {env : Environment}
    (haround : ∀ around, scope.around = some around → around < heap.cells.length)
    (hscopes : scope.bindings :: scopesAround heap.cells scope.around = env.scopes) :
    (heap.push scope).Stores (envs ++ [env]) where
  wellFormed := h.wellFormed.push scope haround
  scopes := by
    have hold : heap.handles.map (storedScopes (heap.cells ++ [scope])) = heap.handles.map (storedScopes heap.cells) :=
      List.map_congr_left fun c hc => storedScopes_append (h.wellFormed.handle_lt hc) [scope]
    have hlinks : scopesAround (heap.cells ++ [scope]) scope.around = scopesAround heap.cells scope.around := by
      cases hscope : scope.around with
      | none => rfl
      | some around => exact storedScopes_append (haround around hscope) [scope]
    have hnew : storedScopes (heap.cells ++ [scope]) heap.cells.length = env.scopes := by
      rw [storedScopes_eq List.getElem?_concat_length haround, hlinks, hscopes]
    rw [ScopeHeap.push, List.map_append, hold, h.scopes, List.map_singleton, hnew, List.map_append, List.map_singleton]

theorem clone (h : heap.Stores envs) (env : Nat) :
    Stores { heap with handles := heap.handles ++ heap.handles[env]?.toList } (envs ++ envs[env]?.toList) where
  wellFormed := by
    refine ⟨fun hc => ?_, h.wellFormed.around_lt⟩
    rcases List.mem_append.1 hc with hc | hc
    · exact h.wellFormed.handle_lt hc
    · exact h.wellFormed.handle_lt (List.mem_of_getElem? (Option.mem_toList.1 hc))
  scopes := by
    rw [List.map_append, List.map_append, ← Option.toList_map, ← Option.toList_map, h.scopes, h.getElem?]

/-- A scope that a binding has been added to, in place or in a copy at `c'`, with the same scopes around it. -/
theorem storedScopes_bind (h : heap.Stores envs) {env c c' : Nat} {scope : StoredScope} {cells : List StoredScope}
    (hc : heap.handles[env]? = some c) (hcell : heap.cells[c]? = some scope) {obj : ObjId} {ctx : ChainContext}
    (hcell' : cells[c']? = some (scope.bind obj ctx)) (hle : c ≤ c')
    (hsame : ∀ around < c, storedScopes cells around = storedScopes heap.cells around) :
    ∃ e, envs[env]? = some e ∧ storedScopes cells c' = (e.bind obj ctx).scopes := by
  obtain ⟨e, he, hscopes⟩ := h.exists_of_handle hc
  have hlink : ∀ around, scope.around = some around → around < c := fun _ => h.wellFormed.around_lt hcell
  have houter : scopesAround cells scope.around = scopesAround heap.cells scope.around := by
    cases hscope : scope.around with
    | none => rfl
    | some around => exact hsame around (hlink around hscope)
  rw [storedScopes_eq hcell hlink, ← houter] at hscopes
  exact ⟨e, he, (storedScopes_eq hcell' fun around haround => (hlink around haround).trans_le hle).trans
    (Environment.scopes_bind hscopes obj ctx)⟩

/-- A scope that nothing else holds is written in place: no other environment sees it. -/
theorem bindInPlace (h : heap.Stores envs) {env c : Nat} {scope : StoredScope} (hc : heap.handles[env]? = some c)
    (hcell : heap.cells[c]? = some scope) (hone : heap.holders c = 1) (obj : ObjId) (ctx : ChainContext) :
    Stores { heap with cells := heap.cells.modify c fun scope => scope.bind obj ctx }
      (envs.modify env fun e => e.bind obj ctx) where
  wellFormed := h.wellFormed.bindInPlace c obj ctx
  scopes := by
    obtain ⟨hsole, hfree⟩ := sole_of_holders hone hc
    have hcell' : (heap.cells.modify c fun scope => scope.bind obj ctx)[c]? = some (scope.bind obj ctx) := by
      rw [List.getElem?_modify_eq, hcell, Option.map_eq_map, Option.map_some]
    refine List.ext_getElem? fun i => ?_
    rw [List.getElem?_map, List.getElem?_map, List.getElem?_modify]
    by_cases hi : env = i
    · subst hi
      obtain ⟨e, he, hscopes⟩ := h.storedScopes_bind hc hcell hcell' le_rfl
        fun around hlt => storedScopes_modify_of_ne hfree hlt.ne _
      simp [hc, he, hscopes]
    · have hne : ∀ d ∈ heap.handles[i]?, d ≠ c := fun d hd hdc => hi (hsole (hdc ▸ hd)).symm
      rw [Option.map_congr fun d hd => storedScopes_modify_of_ne hfree (hne d hd) _, h.getElem?]
      simp [hi]

/-- A shared scope is copied, and stays as it was for all others that hold it. -/
theorem bindCopy (h : heap.Stores envs) {env c : Nat} {scope : StoredScope} (hc : heap.handles[env]? = some c)
    (hcell : heap.cells[c]? = some scope) (obj : ObjId) (ctx : ChainContext) :
    Stores ⟨heap.cells ++ [scope.bind obj ctx], heap.handles.set env heap.cells.length⟩
      (envs.modify env fun e => e.bind obj ctx) where
  wellFormed := h.wellFormed.bindCopy hcell env obj ctx
  scopes := by
    have hlt : c < heap.cells.length := (List.getElem?_eq_some_iff.1 hcell).1
    refine List.ext_getElem? fun i => ?_
    rw [List.getElem?_map, List.getElem?_map, List.getElem?_modify]
    by_cases hi : env = i
    · subst hi
      obtain ⟨e, he, hscopes⟩ := h.storedScopes_bind hc hcell List.getElem?_concat_length hlt.le
        fun around haround => storedScopes_append (haround.trans hlt) [scope.bind obj ctx]
      rw [List.getElem?_set_self (List.getElem?_eq_some_iff.1 hc).1]
      simp [he, hscopes]
    · have hold : ∀ d ∈ heap.handles[i]?, d < heap.cells.length :=
        fun d hd => h.wellFormed.handle_lt (List.mem_of_getElem? hd)
      rw [List.getElem?_set_ne hi, Option.map_congr fun d hd => storedScopes_append (hold d hd) _, h.getElem?]
      simp [hi]

theorem bind (h : heap.Stores envs) (env : Nat) (obj : ObjId) (ctx : ChainContext) :
    (heap.bind env obj ctx).Stores (envs.modify env fun e => e.bind obj ctx) := by
  unfold ScopeHeap.bind
  cases hc : heap.handles[env]? with
  | none =>
    rw [List.modify_eq_set_getElem?, h.eq_none_of_handle hc]
    exact h
  | some c =>
    obtain ⟨scope, hcell⟩ := h.wellFormed.exists_cell (List.mem_of_getElem? hc)
    by_cases hone : heap.holders c = 1
    · simp only [hone, if_true]
      exact h.bindInPlace hc hcell hone obj ctx
    · simp only [hone, if_false, hcell]
      exact h.bindCopy hc hcell obj ctx

theorem perform (h : heap.Stores envs) (op : Environment.Operation) :
    (heap.perform op).Stores (op.onEnvironments envs) := by
  cases op with
  | new => exact h.push {} (fun _ haround => nomatch haround) rfl
  | child env =>
    rw [Environment.Operation.onEnvironments, Environment.Operation.perform]
    cases hc : heap.handles[env]? with
    | none =>
      rw [h.eq_none_of_handle hc]
      simpa only [ScopeHeap.perform, hc, Option.map_none, Option.toList_none, List.append_nil] using h
    | some c =>
      obtain ⟨e, he, hscopes⟩ := h.exists_of_handle hc
      have hlt : ∀ around, some c = some around → around < heap.cells.length :=
        fun around haround => Option.some.inj haround ▸ h.wellFormed.handle_lt (List.mem_of_getElem? hc)
      simp only [ScopeHeap.perform, hc, he, Option.map_some, Option.toList_some]
      exact h.push { around := some c } hlt (congrArg ([] :: ·) hscopes)
  | clone env => exact h.clone env
  | bind env obj ctx => exact h.bind env obj ctx

theorem made (ops : List Environment.Operation) : (ScopeHeap.made ops).Stores (Environment.made ops) := by
  induction ops using List.reverseRecOn with
  | nil => exact ⟨⟨fun hc => absurd hc List.not_mem_nil, fun hcell => nomatch hcell⟩, rfl⟩
  | append_singleton ops op ih =>
    rw [ScopeHeap.made, Environment.made, List.foldl_concat, List.foldl_concat]
    exact ih.perform op

/-- The heap is looked up as the environments it stores. -/
theorem lookup? (h : heap.Stores envs) (env : Nat) (obj : ObjId) :
    heap.lookup? env obj = envs[env]?.bind fun e => e.lookup? obj := by
  unfold ScopeHeap.lookup?
  cases hc : heap.handles[env]? with
  | none => rw [h.eq_none_of_handle hc]; rfl
  | some c =>
    obtain ⟨e, he, hscopes⟩ := h.exists_of_handle hc
    rw [he, Option.bind_some, Option.bind_some, storedLookup?_eq, hscopes]
    rfl

end Stores

end ScopeHeap

namespace Environment

/-- Whatever operations make a tree of environments, each variable is looked up in each environment, and on the heap
that stores their scopes, as in the flat map of that environment.  So a binding changes no lookup but that of the
variable itself in the environment itself. -/
theorem lookup?_of_operations (ops : List Operation) :
    (made ops).map binding? = madeMaps ops ∧
    (ScopeHeap.made ops).Stores (made ops) ∧
    (∀ env obj,
      (made ops)[env]?.bind (fun e => e.lookup? obj) = mapLookup? (madeMaps ops) env obj ∧
      (ScopeHeap.made ops).lookup? env obj = mapLookup? (madeMaps ops) env obj) ∧
    ∀ env obj ctx other var, other ≠ env ∨ var ≠ obj →
      (made (ops ++ [.bind env obj ctx]))[other]?.bind (fun e => e.lookup? var) =
        (made ops)[other]?.bind (fun e => e.lookup? var) ∧
      (ScopeHeap.made (ops ++ [.bind env obj ctx])).lookup? other var = (ScopeHeap.made ops).lookup? other var := by
  have hheap : ∀ ops env obj, (ScopeHeap.made ops).lookup? env obj = mapLookup? (madeMaps ops) env obj :=
    fun ops env obj => ((ScopeHeap.Stores.made ops).lookup? env obj).trans (lookup?_made ops env obj)
  refine ⟨map_binding?_made ops, .made ops, fun env obj => ⟨lookup?_made ops env obj, hheap ops env obj⟩, ?_⟩
  intro env obj ctx other var hother
  have hframe : mapLookup? (madeMaps (ops ++ [.bind env obj ctx])) other var = mapLookup? (madeMaps ops) other var := by
    rw [madeMaps, List.foldl_concat]
    exact mapLookup?_bind _ hother ctx
  constructor
  · rw [lookup?_made, lookup?_made, hframe]
  · rw [hheap, hheap, hframe]

/-- An environment, its child, and a clone of the child: what is bound in the child behind the clone is not seen in the
clone, where the variable is hidden. -/
theorem lookup?_of_operations_hidden :
    let ops := [.new, .bind 0 5 (.entry 1), .child 0, .bind 1 5 .untracked, .clone 1]
    (ScopeHeap.made ops).lookup? 0 5 = some (.entry 1) ∧
    (ScopeHeap.made ops).lookup? 2 5 = none ∧
    (2 ≠ 1 ∨ 5 ≠ 5) ∧
    (ScopeHeap.made (ops ++ [.bind 1 5 (.entry 3)])).lookup? 2 5 = none := by
  intro ops
  obtain ⟨-, -, hlookup, hframe⟩ := lookup?_of_operations ops
  have hclone : (ScopeHeap.made ops).lookup? 2 5 = none := (hlookup 2 5).2
  have hother : 2 ≠ 1 ∨ 5 ≠ 5 := .inl (by decide)
  exact ⟨(hlookup 0 5).2, hclone, hother, (hframe 1 5 (.entry 3) 2 5 hother).2.trans hclone⟩

end Environment

end FluentChain
