import FluentChain.Proofs.Build.Change
import FluentChain.Proofs.Build.Indexed

/-!
# The table of a program

Whatever operations build a program, its table names each type once, the indexes of names and of keys agree with it, and
types keep what they are (`Build.Operation.types_of_operations`).  A type is made of types before it, so following
components comes to an end, also where a named type leads back to itself: the text of a type and its record are found
without looking whether components stand before it (`displayWithin_eq`, `recordWithin_eq`).
-/

namespace FluentChain

namespace TypeTable

variable {t u : TypeTable} {id : TypeId}

/-! ### Following components to the end -/

/-- The text of a type, found by following components through at most `depth` types; no text where that is not
enough. -/
def displayWithin (t : TypeTable) : Nat → TypeId → Option String
  | 0, _ => none
  | depth + 1, id =>
    match t.get? id with
    | none => some ""
    | some (.basic name) => some name
    | some (.named decl) => some decl.name
    | some (.pointer elem) => return "*" ++ (← t.displayWithin depth elem)
    | some (.slice elem) => return "[]" ++ (← t.displayWithin depth elem)
    | some (.array elem) => return "[_]" ++ (← t.displayWithin depth elem)
    | some (.map key value) =>
      return "map[" ++ (← t.displayWithin depth key) ++ "]" ++ (← t.displayWithin depth value)
    | some (.struct _) => some "struct\x7b...\x7d"
    | some (.signature sig) =>
      return "func(" ++ ", ".intercalate (← sig.params.mapM (t.displayWithin depth)) ++ ") ("
        ++ ", ".intercalate (← sig.results.mapM (t.displayWithin depth)) ++ ")"
    | some .interface => some "interface\x7b\x7d"

/-- The record of a type, found by following components through at most `depth` types; no answer where that is not
enough. -/
def recordWithin (t : TypeTable) : Nat → TypeId → Option (Option TypeId)
  | 0, _ => none
  | depth + 1, id =>
    match t.get? id with
    | some (.pointer elem) | some (.slice elem) | some (.array elem) => t.recordWithin depth elem
    | some (.named _) => some (if (t.structFields? id).isSome then some id else none)
    | _ => some none

theorem mapM_eq_some_map {α β : Type} {f : α → Option β} {g : α → β} {l : List α} (h : ∀ a ∈ l, f a = some (g a)) :
    l.mapM f = some (l.map g) := by
  induction l with
  | nil => rfl
  | cons a l ih =>
    rw [List.mapM_cons, h a (by simp), ih fun b hb => h b (by simp [hb])]
    rfl

theorem displayWithin_eq (ht : t.WellFormed) {depth : Nat} (hid : id < t.size) (hdepth : id < depth) :
    t.displayWithin depth id = some (t.display id) := by
  induction depth generalizing id with
  | zero => exact absurd hdepth (Nat.not_lt_zero id)
  | succ depth ih =>
    obtain ⟨ty, hty⟩ := exists_get?_of_lt hid
    have hlt : ∀ c ∈ ty.components, c < id := ht.ordered hty
    have hcomponent : ∀ c ∈ ty.components, t.displayWithin depth c = some (t.display c) := fun c hc =>
      ih (Nat.lt_trans (hlt c hc) hid) (Nat.lt_of_lt_of_le (hlt c hc) (Nat.le_of_lt_succ hdepth))
    rw [displayWithin, display]
    cases ty with
    | basic | named | struct | interface => simp only [hty]
    | pointer elem | slice elem | array elem =>
      have hmem : elem ∈ [elem] := List.mem_cons_self
      simp only [hty, hlt elem hmem, hcomponent elem hmem, ↓reduceIte]
      rfl
    | map key value =>
      have hkey : key ∈ [key, value] := List.mem_cons_self
      have hvalue : value ∈ [key, value] := List.mem_cons_of_mem _ List.mem_cons_self
      simp only [hty, hlt key hkey, hlt value hvalue, hcomponent key hkey, hcomponent value hvalue, ↓reduceIte]
      rfl
    | signature sig =>
      have hmap : ∀ ids : List TypeId, (∀ c ∈ ids, c ∈ sig.params ++ sig.results) →
          ids.mapM (t.displayWithin depth) = some (ids.map fun c => if c < id then t.display c else "") := by
        refine fun ids hids => mapM_eq_some_map fun c hc => ?_
        rw [hcomponent c (hids c hc), if_pos (hlt c (hids c hc))]
      simp only [hty, hmap sig.params fun c hc => List.mem_append_left _ hc,
        hmap sig.results fun c hc => List.mem_append_right _ hc]
      rfl

theorem recordWithin_eq (ht : t.WellFormed) {depth : Nat} (hid : id < t.size) (hdepth : id < depth) :
    t.recordWithin depth id = some (t.recordType? id) := by
  induction depth generalizing id with
  | zero => exact absurd hdepth (Nat.not_lt_zero id)
  | succ depth ih =>
    obtain ⟨ty, hty⟩ := exists_get?_of_lt hid
    rw [recordWithin, recordType?]
    cases ty with
    | basic | map | struct | signature | interface | named => simp only [hty]
    | pointer elem | slice elem | array elem =>
      have hlt : elem < id := ht.ordered hty elem List.mem_cons_self
      simp only [hty, hlt, ↓reduceIte]
      exact ih (Nat.lt_trans hlt hid) (Nat.lt_of_lt_of_le hlt (Nat.le_of_lt_succ hdepth))

/-! ### What stays when more becomes known -/

namespace Develops

variable (h : t.Develops u)

include h

theorem growsTo : t.GrowsTo u where
  unnamed := h.unnamed
  named hid := by
    obtain ⟨e, he, hd⟩ := h.named hid
    exact ⟨e, he, hd.name⟩

/-- The way from a type to a type without a name is the way it was. -/
theorem underlyingWithin_eq {depth : Nat} {ty : Ty} (hty : t.get? (t.underlyingWithin depth id) = some ty)
    (hunnamed : ∀ decl, ty ≠ .named decl) : u.underlyingWithin depth id = t.underlyingWithin depth id := by
  induction depth generalizing id with
  | zero => rfl
  | succ depth ih =>
    rw [underlyingWithin] at hty
    rw [underlyingWithin, underlyingWithin]
    cases hdecl : t.decl? id with
    | none =>
      -- the way ends here, at a type that is no name
      simp only [hdecl] at hty ⊢
      have hdecl' : u.decl? id = none := by
        rw [← hdecl, decl?, decl?, hty, h.unnamed hty hunnamed]
      simp only [hdecl']
    | some decl =>
      obtain ⟨e, he, hd⟩ := h.named (get?_of_decl? hdecl)
      have hdecl' : u.decl? id = some e := by rw [decl?, he]
      obtain ⟨name, pos, underlying, methods⟩ := decl
      cases underlying with
      | none =>
        simp only [hdecl] at hty
        exact absurd (Option.some.inj (hty.symm.trans (get?_of_decl? hdecl))) (hunnamed _)
      | some next =>
        obtain ⟨name', pos', underlying', methods'⟩ := e
        obtain rfl : underlying' = some next := hd.underlying next rfl
        simp only [hdecl] at hty
        simp only [hdecl']
        exact ih hty

theorem structFields? {fields : List Field} (hid : t.structFields? id = some fields) :
    u.structFields? id = some fields := by
  unfold TypeTable.structFields? at hid ⊢
  split at hid
  · rename_i hty
    have hsame : u.underlying id = t.underlying id := h.underlyingWithin_eq hty nofun
    rw [hsame, h.unnamed hty nofun]
    exact hid
  · cases hid

/-- The record of a type stays its record. -/
theorem recordType? {r : TypeId} (hid : t.recordType? id = some r) : u.recordType? id = some r := by
  induction id using Nat.strongRecOn with
  | _ id ih =>
    rw [TypeTable.recordType?] at hid ⊢
    cases hty : t.get? id with
    | none => simp [hty] at hid
    | some ty =>
      cases ty with
      | basic | map | struct | signature | interface => simp [hty] at hid
      | pointer elem | slice elem | array elem =>
        simp only [hty] at hid
        obtain ⟨hlt, hid⟩ := Option.ite_none_right_eq_some.1 hid
        simp only [h.unnamed hty nofun, hlt, ↓reduceIte]
        exact ih elem hlt hid
      | named decl =>
        simp only [hty] at hid
        obtain ⟨hfields, hid⟩ := Option.ite_none_right_eq_some.1 hid
        obtain ⟨fields, hfields⟩ := Option.isSome_iff_exists.1 hfields
        obtain ⟨e, he, -⟩ := h.named hty
        simp only [he, h.structFields? hfields, Option.isSome_some, ↓reduceIte]
        exact hid

end Develops

end TypeTable

namespace Build.Operation

/-- After any operations, those that fail included, the table and its two indexes agree: a name leads to the type that
is declared under it and a key to the type that it stands for, and no index has anything else.  So types of one kind
with the same parts are one type, names and pointers with them, and each type stands behind its parts.

The text and the record of a type are therefore found within as many types as there are before it.  In all that is done
later types and indexes keep what they have, with the same text and the same record; only named types can be given what
they do not have, and methods behind those they have. -/
theorem types_of_operations {ops : List Operation} (hops : FitAll ops {}) {s : IndexedProgram}
    (hs : IndexedProgram.afterAll {} ops = s) :
    s.program = afterAll ops {} ∧
    (∀ name id, s.types.named.lookup name = some id ↔
      ∃ decl, s.types.get? id = some (.named decl) ∧ decl.name = name) ∧
    (∀ key id, s.types.interned.lookup key = some id ↔ s.types.get? id = some key.type) ∧
    (∀ elem id, s.types.pointerTo? elem = some id ↔ s.types.get? id = some (.pointer elem)) ∧
    s.types.WellFormed ∧
    (∀ id < s.types.size, ∀ depth > id, s.types.displayWithin depth id = some (s.types.display id) ∧
      s.types.recordWithin depth id = some (s.types.recordType? id)) ∧
    ∀ more t, FitAll more s.program → s.afterAll more = t →
      s.types.Develops t.types.toTypeTable ∧
      (∀ name id, s.types.named.lookup name = some id → t.types.named.lookup name = some id) ∧
      (∀ key id, s.types.interned.lookup key = some id → t.types.interned.lookup key = some id) ∧
      ∀ id < s.types.size, t.types.display id = s.types.display id ∧
        ∀ r ∈ s.types.recordType? id, t.types.recordType? id = some r := by
  obtain ⟨hinStep, hprogram⟩ := IndexedProgram.inStep_empty.afterAll hops
  rw [hs] at hinStep hprogram
  have hbuilt : s.program.Built := Program.leadsBy_iff.2 ⟨ops, hops, hprogram.symm⟩
  have ht : s.types.WellFormed := hbuilt.wellFormed.table
  refine ⟨hprogram, hinStep.types.lookup_named_iff, hinStep.types.lookup_interned_iff,
    fun elem id => hinStep.types.lookup_interned_iff (.pointer elem) id, ht, fun id hid depth hdepth =>
      ⟨TypeTable.displayWithin_eq ht hid hdepth, TypeTable.recordWithin_eq ht hid hdepth⟩, fun more t hmore hlast => ?_⟩
  obtain ⟨hinStep', hprogram'⟩ := hinStep.afterAll hmore
  rw [hlast] at hinStep' hprogram'
  have hdevelops : s.types.Develops t.types.toTypeTable :=
    (Program.leadsBy_iff.2 ⟨more, hmore, hprogram'.symm⟩ : s.program.LeadsBy t.program).develops
  refine ⟨hdevelops, fun name id hname => ?_, fun key id hkey => ?_, fun id hid =>
    ⟨TypeTable.display_of_growsTo ht hdevelops.growsTo hid, fun r hr => hdevelops.recordType? hr⟩⟩
  · obtain ⟨decl, hdecl, rfl⟩ := (hinStep.types.lookup_named_iff name id).1 hname
    obtain ⟨decl', hdecl', hsame⟩ := hdevelops.growsTo.named hdecl
    exact (hinStep'.types.lookup_named_iff _ id).2 ⟨decl', hdecl', hsame⟩
  · have hid := (hinStep.types.lookup_interned_iff key id).1 hkey
    exact (hinStep'.types.lookup_interned_iff key id).2 (hdevelops.unnamed hid fun _ => key.type_ne_named)

/-- The pointer to a list node was added by an expression that failed behind it.  The indexes have it and the node,
which leads back to itself through it, also after the node is declared once more. -/
theorem types_of_operations_listNode : FitAll listNode {} ∧
    let s := IndexedProgram.afterAll {} listNode
    s.program = Program.listNode ∧
    s.types.named.lookup "Node" = some 0 ∧
    s.types.pointerTo? 0 = some 1 ∧
    s.types.get? 0 = some (.named ⟨"Node", some ⟨0, 1, 6⟩, some 2, [0, 2]⟩) ∧
    s.types.recordWithin 2 1 = some (some 0) ∧
    FitAll [.declareType "Node" none] s.program ∧
    (s.afterAll [.declareType "Node" none]).types.interned.lookup (.pointer 0) = some 1 ∧
    (s.afterAll [.declareType "Node" none]).types.display 1 = "*Node" := by
  have hops : FitAll listNode {} := by decide +kernel
  obtain ⟨hprogram, hnames, -, hpointers, -, hends, hkept⟩ := types_of_operations hops rfl
  generalize IndexedProgram.afterAll {} listNode = s at hprogram hnames hpointers hends hkept
  have htypes : s.types.toTypeTable = Program.listNode.types := congrArg Program.types hprogram
  have hnode : s.types.get? 0 = some (.named ⟨"Node", some ⟨0, 1, 6⟩, some 2, [0, 2]⟩) := by
    rw [htypes]
    decide +kernel
  have hpointer : s.types.pointerTo? 0 = some 1 := (hpointers 0 1).2 (by rw [htypes]; decide +kernel)
  have hid : 1 < s.types.size := by
    rw [htypes]
    decide +kernel
  have hrecord : s.types.recordType? 1 = some 0 := by
    rw [htypes]
    decide +kernel
  have htext : s.types.display 1 = "*Node" := by
    rw [htypes]
    decide +kernel
  have hmore : FitAll [.declareType "Node" none] s.program := ⟨trivial, trivial⟩
  obtain ⟨-, -, hkeys, htexts⟩ := hkept _ _ hmore rfl
  exact ⟨hops, hprogram, (hnames "Node" 0).2 ⟨_, hnode, rfl⟩, hpointer, hnode,
    (hends 1 hid 2 (by decide)).2.trans (congrArg some hrecord), hmore, hkeys (.pointer 0) 1 hpointer,
    (htexts 1 hid).1.trans htext⟩

end Build.Operation

end FluentChain
