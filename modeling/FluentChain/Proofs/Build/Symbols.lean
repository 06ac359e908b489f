import FluentChain.Proofs.Build.Indexed
import FluentChain.Proofs.Role.Methods

/-!
# The symbols of a program

Symbols are found by their keys, methods and others alike, through an index of the keys, and a type lists its methods in
the order in which they were declared.  The index, the symbols and the lists stay in step whatever operations are done
(`Build.Operation.symbols_afterAll`, `IndexedProgram.InStep.afterAll`): an operation that fails to declare a symbol or
to define a type changes nothing at all.
-/

namespace FluentChain

/-- A method that was declared, with what it was declared with. -/
structure DeclaredMethod where
  id : ObjId
  recv : TypeId
  name : String
  sig : TypeId
deriving DecidableEq, Repr

namespace TypeTable

variable {t u : TypeTable} {recv owner : TypeId}

theorem lt_size_of_methodOwner? (h : t.methodOwner? recv = some owner) : recv < t.size := by
  obtain ⟨hdecl, rfl | hptr⟩ := methodOwner?_eq_some_iff.1 h
  · obtain ⟨decl, hid⟩ := isSome_decl?_iff.1 hdecl
    exact lt_size_of_get? hid
  · exact lt_size_of_get? hptr

/-- The key of a method is the same in all that is done to the table later. -/
theorem methodKey_of_growsTo (ht : t.WellFormed) (hgrow : t.GrowsTo u) (howner : t.methodOwner? recv = some owner)
    (name : String) : Build.methodKey u recv name = Build.methodKey t recv name := by
  rw [Build.methodKey, display_of_growsTo ht hgrow (lt_size_of_methodOwner? howner)]
  rfl

end TypeTable

/-! ### Steps that fail -/

namespace Build

variable {p q : Program} {e : LoadError}

theorem object_eq_error_iff {obj : Object} : object obj p = .error e q ↔
    q = p ∧ e = .duplicateObject obj.key ∧ p.lookupObject? obj.key ≠ none := by
  rw [run_object]
  cases p.lookupObject? obj.key with
  | none => simp
  | some o =>
    constructor
    · rintro ⟨⟩
      exact ⟨rfl, rfl, nofun⟩
    · rintro ⟨rfl, rfl, -⟩
      rfl

theorem method_eq_error_iff {recv sig : TypeId} {name : String} : method recv name sig p = .error e q ↔
    q = p ∧ (e = .badReceiver (p.types.display recv) ∧ p.types.methodOwner? recv = none ∨
      e = .duplicateObject (methodKey p.types recv name) ∧ p.types.methodOwner? recv ≠ none ∧
        p.lookupObject? (methodKey p.types recv name) ≠ none) := by
  rw [run_method]
  cases p.types.methodOwner? recv with
  | none =>
    constructor
    · rintro ⟨⟩
      exact ⟨rfl, Or.inl ⟨rfl, rfl⟩⟩
    · rintro ⟨rfl, ⟨rfl, -⟩ | ⟨-, hne, -⟩⟩
      · rfl
      · exact absurd rfl hne
  | some owner =>
    cases p.lookupObject? (methodKey p.types recv name) with
    | none => simp
    | some o =>
      constructor
      · rintro ⟨⟩
        exact ⟨rfl, Or.inr ⟨rfl, nofun, nofun⟩⟩
      · rintro ⟨rfl, ⟨-, hnone⟩ | ⟨rfl, -, -⟩⟩
        · cases hnone
        · rfl

theorem setUnderlying_eq_error_iff {id underlying : TypeId} : setUnderlying id underlying p = .error e q ↔
    q = p ∧ (e = .badReceiver (p.types.display id) ∧ p.types.decl? id = none ∨
      e = .conflictingType (p.types.display id) ∧ ∃ decl ∈ p.types.decl? id, decl.underlying ≠ none) := by
  rw [run_setUnderlying]
  cases p.types.decl? id with
  | none =>
    constructor
    · rintro ⟨⟩
      exact ⟨rfl, Or.inl ⟨rfl, rfl⟩⟩
    · rintro ⟨rfl, ⟨rfl, -⟩ | ⟨-, decl, hdecl, -⟩⟩
      · rfl
      · cases hdecl
  | some decl =>
    cases hold : decl.underlying with
    | none => simp [hold]
    | some u =>
      constructor
      · intro hrun
        simp only [hold, Option.isSome_some, ↓reduceIte] at hrun
        cases hrun
        exact ⟨rfl, Or.inr ⟨rfl, decl, rfl, by simp [hold]⟩⟩
      · rintro ⟨rfl, ⟨-, hnone⟩ | ⟨rfl, -⟩⟩
        · cases hnone
        · simp [hold]

end Build

/-! ### Keys and lists in step -/

namespace Program

variable {p q : Program}

theorem nodup_keys_push {obj : Object} (h : (p.objects.toList.map (·.key)).Nodup)
    (hnew : p.lookupObject? obj.key = none) : ((p.objects.push obj).toList.map (·.key)).Nodup := by
  rw [Array.toList_push, List.map_append]
  refine List.nodup_append.2 ⟨h, List.nodup_singleton _, ?_⟩
  rintro key hkey _ hobj rfl
  rw [List.map_singleton, List.mem_singleton] at hobj
  exact lookupObject?_eq_none_iff.1 hnew (hobj ▸ hkey)

/-- No two symbols share a key, and the types list the methods `ms`, which are what they were declared with. -/
structure Symbols (p : Program) (ms : List DeclaredMethod) : Prop where
  keys : (p.objects.toList.map (·.key)).Nodup
  owned : ∀ m ∈ ms, ∃ owner, p.types.methodOwner? m.recv = some owner
  objects : ∀ m ∈ ms, p.object? m.id =
    some ⟨Build.methodKey p.types m.recv m.name, m.name, .method, some m.sig, some m.recv, none⟩
  increasing : (ms.map (·.id)).Pairwise (· < ·)
  methods : ∀ owner, p.types.methods owner =
    (ms.filter fun m => p.types.methodOwner? m.recv = some owner).map (·.id)

namespace Symbols

variable {ms : List DeclaredMethod}

theorem empty : Symbols {} [] where
  keys := .nil
  owned := by simp
  objects := by simp
  increasing := .nil
  methods owner := by simp [TypeTable.methods, TypeTable.decl?, TypeTable.get?]

/-- Methods keep their owners. -/
theorem filter_grow (h : p.Symbols ms) {u : TypeTable} (hgrow : p.types.GrowsTo u) (owner : TypeId) :
    ms.filter (fun m => u.methodOwner? m.recv = some owner) =
      ms.filter fun m => p.types.methodOwner? m.recv = some owner := by
  refine List.filter_congr fun m hm => ?_
  obtain ⟨owner', howner'⟩ := h.owned m hm
  rw [howner', hgrow.methodOwner? howner']

/-- What is known of declared methods is known of them when the program has grown. -/
theorem grow (h : p.Symbols ms) (hp : p.WellFormed false) (hgrow : p.GrowsTo q)
    (hkeys : (q.objects.toList.map (·.key)).Nodup) (hmethods : ∀ owner, q.types.methods owner = p.types.methods owner) :
    q.Symbols ms where
  keys := hkeys
  owned m hm := by
    obtain ⟨owner, howner⟩ := h.owned m hm
    exact ⟨owner, hgrow.types.methodOwner? howner⟩
  objects m hm := by
    obtain ⟨owner, howner⟩ := h.owned m hm
    rw [TypeTable.methodKey_of_growsTo hp.table hgrow.types howner,
      hgrow.object?_eq (lt_size_of_key? (congrArg _ (h.objects m hm)))]
    exact h.objects m hm
  increasing := h.increasing
  methods owner := by rw [hmethods, h.methods, h.filter_grow hgrow.types]

/-- A symbol that is no method of any type. -/
theorem pushObject (h : p.Symbols ms) (hp : p.WellFormed false) {obj : Object}
    (hnew : p.lookupObject? obj.key = none) : Symbols { p with objects := p.objects.push obj } ms :=
  h.grow hp (Build.growsTo_pushObject p obj) (nodup_keys_push h.keys hnew) fun _ => rfl

/-- A method comes to the end of the list of its owner. -/
theorem pushMethod (h : p.Symbols ms) (hp : p.WellFormed false) {recv owner sig : TypeId} {name : String}
    (howner : p.types.methodOwner? recv = some owner)
    (hnew : p.lookupObject? (Build.methodKey p.types recv name) = none) :
    Symbols { p with
      objects := p.objects.push ⟨Build.methodKey p.types recv name, name, .method, some sig, some recv, none⟩
      types := p.types.modifyDecl owner fun d => { d with methods := d.methods ++ [p.objects.size] } }
      (ms ++ [⟨p.objects.size, recv, name, sig⟩]) := by
  obtain ⟨decl, hid⟩ := Build.get?_methodOwner? howner
  have hlists := TypeTable.methods_modifyDecl hid (f := fun d => { d with methods := d.methods ++ [p.objects.size] })
  generalize hu : (p.types.modifyDecl owner fun d => { d with methods := d.methods ++ [p.objects.size] }) = u at hlists
  have hgrow : p.types.GrowsTo u := hu ▸ TypeTable.growsTo_modifyDecl hid rfl
  have hlt : ∀ m ∈ ms, m.id < p.objects.size := fun m hm => lt_size_of_key? (congrArg _ (h.objects m hm))
  refine ⟨nodup_keys_push h.keys hnew, ?_, ?_, ?_, fun owner' => ?_⟩
  · intro m hm
    rcases List.mem_append.1 hm with hm | hm
    · obtain ⟨owner', howner'⟩ := h.owned m hm
      exact ⟨owner', hgrow.methodOwner? howner'⟩
    · rw [List.mem_singleton.1 hm]
      exact ⟨owner, hgrow.methodOwner? howner⟩
  · intro m hm
    rcases List.mem_append.1 hm with hm | hm
    · obtain ⟨owner', howner'⟩ := h.owned m hm
      rw [TypeTable.methodKey_of_growsTo hp.table hgrow howner', object?, Array.getElem?_push_lt (hlt m hm),
        ← Array.getElem?_eq_getElem]
      exact h.objects m hm
    · obtain rfl := List.mem_singleton.1 hm
      rw [TypeTable.methodKey_of_growsTo hp.table hgrow howner]
      exact Array.getElem?_push_size
  · rw [List.map_append]
    refine List.pairwise_append.2 ⟨h.increasing, List.pairwise_singleton _ _, fun a ha b hb => ?_⟩
    obtain ⟨m, hm, rfl⟩ := List.mem_map.1 ha
    rw [List.map_singleton, List.mem_singleton] at hb
    exact hb ▸ hlt m hm
  · rw [List.filter_append, List.map_append, h.filter_grow hgrow, ← h.methods, hlists]
    by_cases hsame : owner' = owner
    · simp [hsame, hgrow.methodOwner? howner, TypeTable.methods_of_get? hid]
    · simp [hsame, hgrow.methodOwner? howner, Ne.symm hsame]

end Symbols

end Program

/-! ### Operations -/

namespace Build.Operation

variable {p : Program}

/-- The method that an operation declares, if it does. -/
def declared? (p : Program) : Operation → Option DeclaredMethod
  | .method recv name sig =>
    match Build.method recv name sig p with
    | .ok id _ => some ⟨id, recv, name, sig⟩
    | .error .. => none
  | _ => none

/-- The methods that operations declare, in the order in which they do. -/
def declaredAll : List Operation → Program → List DeclaredMethod
  | [], _ => []
  | op :: ops, p => (op.declared? p).toList ++ declaredAll ops (op.after p)

theorem symbols_after {ms : List DeclaredMethod} (h : p.Symbols ms) (hp : p.WellFormed false) {op : Operation}
    (hop : op.Fits p) : (op.after p).Symbols (ms ++ (op.declared? p).toList) := by
  cases op with
  | object key name kind type pos =>
    simp only [declared?, after, stateAfter, run_object, Option.toList_none, List.append_nil]
    cases hkey : p.lookupObject? key with
    | some o => exact h
    | none => exact h.pushObject hp hkey
  | method recv name sig =>
    simp only [declared?, after, stateAfter, run_method]
    cases howner : p.types.methodOwner? recv with
    | none => simpa using h
    | some owner =>
      cases hkey : p.lookupObject? (methodKey p.types recv name) with
      | some o => simpa using h
      | none => exact h.pushMethod hp howner hkey
  | _ =>
    have hchanges := Operation.changes hop id
    simp only [declared?, Option.toList_none, List.append_nil]
    exact h.grow hp (Operation.keeps hop hp).2.toGrowsTo (hchanges.objects ▸ h.keys) hchanges.spares.types.methods

theorem symbols_afterAll {ms : List DeclaredMethod} (h : p.Symbols ms) (hp : p.WellFormed false) {ops : List Operation}
    (hops : FitAll ops p) : (afterAll ops p).Symbols (ms ++ declaredAll ops p) := by
  induction ops generalizing p ms with
  | nil => simpa [declaredAll, afterAll] using h
  | cons op ops ih =>
    rw [declaredAll, ← List.append_assoc]
    exact ih (symbols_after h hp hops.1) (Operation.keeps hops.1 hp).1 hops.2

/-- After any operations, those that fail included, the index of the keys and the symbols agree: a key leads to the
symbol that has it, which a search finds as well, and no two symbols have one key.  A named type lists the methods that
were declared on it and on pointers to it, each once and in the order in which they were declared, and each of them is
what it was declared with, under the key `(receiver).name`.

To declare a symbol fails where its key is taken, to declare a method also where the receiver has no name, and to define
a type where it has no name or a definition; and then the program stays as it was, with all its indexes. -/
theorem symbols_of_operations {ops : List Operation} (hops : FitAll ops {}) (hp : afterAll ops {} = p)
    {s : IndexedProgram} (hs : IndexedProgram.afterAll {} ops = s) :
    s.program = p ∧
    (∀ key o, s.objectKeys.lookup key = some o ↔ p.key? o = some key) ∧
    (∀ key, p.lookupObject? key = s.objectKeys.lookup key) ∧
    (p.objects.toList.map (·.key)).Nodup ∧
    (∀ id decl, p.types.get? id = some (.named decl) → decl.methods =
      ((declaredAll ops {}).filter fun m => m.recv = id ∨ p.types.get? m.recv = some (.pointer id)).map (·.id)) ∧
    ((declaredAll ops {}).map (·.id)).Pairwise (· < ·) ∧
    (∀ m ∈ declaredAll ops {}, p.object? m.id =
      some ⟨"(" ++ p.types.display m.recv ++ ")." ++ m.name, m.name, .method, some m.sig, some m.recv, none⟩) ∧
    (∀ obj e t, IndexedBuild.object obj s = .error e t ↔ t = s ∧ Build.object obj p = .error e p) ∧
    (∀ obj e q, Build.object obj p = .error e q ↔
      q = p ∧ e = .duplicateObject obj.key ∧ p.lookupObject? obj.key ≠ none) ∧
    (∀ recv name sig e t, IndexedBuild.method recv name sig s = .error e t ↔
      t = s ∧ Build.method recv name sig p = .error e p) ∧
    (∀ recv name sig e q, Build.method recv name sig p = .error e q ↔
      q = p ∧ (e = .badReceiver (p.types.display recv) ∧ p.types.methodOwner? recv = none ∨
        e = .duplicateObject (methodKey p.types recv name) ∧ p.types.methodOwner? recv ≠ none ∧
          p.lookupObject? (methodKey p.types recv name) ≠ none)) ∧
    (∀ id underlying e t, IndexedBuild.setUnderlying id underlying s = .error e t ↔
      t = s ∧ Build.setUnderlying id underlying p = .error e p) ∧
    ∀ id underlying e q, Build.setUnderlying id underlying p = .error e q ↔
      q = p ∧ (e = .badReceiver (p.types.display id) ∧ p.types.decl? id = none ∨
        e = .conflictingType (p.types.display id) ∧ ∃ decl ∈ p.types.decl? id, decl.underlying ≠ none) := by
  have hsymbols := symbols_afterAll .empty .empty hops
  obtain ⟨hinStep, hprogram⟩ := IndexedProgram.inStep_empty.afterAll hops
  have hempty : ({} : IndexedProgram).program = {} := rfl
  rw [List.nil_append, hp] at hsymbols
  rw [hempty, hp, hs] at hprogram
  rw [hs] at hinStep
  have hlookup : ∀ key, p.lookupObject? key = s.objectKeys.lookup key := fun key =>
    hprogram ▸ (hinStep.lookup_objectKeys key).symm
  refine ⟨hprogram, fun key o => hprogram ▸ hinStep.lookup_objectKeys_iff key o, hlookup, hsymbols.keys,
    fun id decl hid => ?_, hsymbols.increasing, hsymbols.objects, fun obj e t => ?_, fun _ _ _ => object_eq_error_iff,
    fun recv name sig e t => ?_, fun _ _ _ _ _ => method_eq_error_iff, fun id underlying e t => ?_,
    fun _ _ _ _ => setUnderlying_eq_error_iff⟩
  · have hsome : (p.types.decl? id).isSome := TypeTable.isSome_decl?_iff.2 ⟨decl, hid⟩
    rw [← TypeTable.methods_of_get? hid, hsymbols.methods]
    simp only [TypeTable.methodOwner?_eq_some_iff, hsome, true_and]
  · rw [← hprogram]
    exact (IndexedBuild.mirrors_object obj).error_iff hinStep fun _ _ => IndexedBuild.eq_of_object_eq_error
  · rw [← hprogram]
    exact (IndexedBuild.mirrors_method recv name sig).error_iff hinStep fun _ _ => IndexedBuild.eq_of_method_eq_error
  · rw [← hprogram]
    exact (IndexedBuild.mirrors_setUnderlying id underlying).error_iff hinStep fun _ _ =>
      IndexedBuild.eq_of_setUnderlying_eq_error

/-- A list node lists the methods that its operations declared, and their keys are in the index.  Another was not, as
its key was taken; to declare it once more changes nothing, in the index either. -/
theorem symbols_of_operations_listNode : FitAll listNode {} ∧
    let s := IndexedProgram.afterAll {} listNode
    ((declaredAll listNode {}).filter fun m =>
      m.recv = 0 ∨ s.types.get? m.recv = some (.pointer 0)).map (·.id) = [0, 2] ∧
    s.objectKeys.lookup "(*Node).Last" = some 0 ∧ s.objectKeys.lookup "(Node).Last" = some 2 ∧
    IndexedBuild.method 0 "Next" 4 s = .error (.duplicateObject "(Node).Next") s := by
  have hops : FitAll listNode {} := by decide +kernel
  have hp : afterAll listNode {} = Program.listNode := rfl
  obtain ⟨hprogram, hkeys, -, -, hmethods, -, -, -, -, hfails, hreason, -⟩ := symbols_of_operations hops hp rfl
  have hnode : Program.listNode.types.get? 0 = some (.named ⟨"Node", some ⟨0, 1, 6⟩, some 2, [0, 2]⟩) := by
    decide +kernel
  have htypes : (IndexedProgram.afterAll {} listNode).types.toTypeTable = Program.listNode.types :=
    congrArg Program.types hprogram
  have hduplicate : Build.method 0 "Next" 4 Program.listNode =
      .error (.duplicateObject "(Node).Next") Program.listNode :=
    (hreason 0 "Next" 4 _ _).2 ⟨rfl, Or.inr ⟨by decide +kernel, by decide +kernel, by decide +kernel⟩⟩
  refine ⟨hops, ?_, (hkeys _ 0).2 (by decide +kernel), (hkeys _ 2).2 (by decide +kernel),
    (hfails 0 "Next" 4 _ _).2 ⟨rfl, hduplicate⟩⟩
  rw [htypes]
  exact (hmethods 0 _ hnode).symm

end Build.Operation

end FluentChain
