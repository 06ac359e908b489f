import FluentChain.Proofs.Build.Dumped
import FluentChain.Proofs.Walk.Padding

/-!
# Arguments for field-selection parameters

Each argument of a call is passed for a parameter: a fixed one as long as there are fixed ones, and from then on the
variadic one, if there is one.  The arguments that are looked at for field references are those whose parameter is of
the field-selection type, in the order they are written, however many parameters and arguments there are
(`fieldArguments_exact`).  A list that is spread over a variadic parameter stands for its elements, where it is
written out.

All of this is found without reading past the end of a table or a list.
-/

namespace FluentChain

namespace Signature

variable (types : TypeTable) (sig : Signature)

/-- How many parameters take one argument each. -/
def fixedCount : Nat := if sig.variadic then sig.params.length - 1 else sig.params.length

/-- The type of the arguments past the fixed parameters, if the signature takes any there. -/
def variadicElem? : Option TypeId := if sig.variadic then sig.params.getLast?.bind types.sliceElem? else none

/-- The type of the parameter that the argument at a place is passed for. -/
def paramType? (i : Nat) : Option TypeId := if i < sig.fixedCount then sig.params[i]? else sig.variadicElem? types

theorem fixedCount_le : sig.fixedCount ≤ sig.params.length := by
  unfold fixedCount
  split
  · exact Nat.sub_le _ 1
  · exact Nat.le_refl _

theorem variadicElem?_beq (selection : TypeId) :
    (sig.variadicElem? types == some selection) =
      (sig.variadic && sig.params.getLast?.bind types.sliceElem? == some selection) := by
  unfold variadicElem?
  cases sig.variadic <;> rfl

end Signature

namespace RoleTable

variable (roles : RoleTable) (p : Program)

/-- The arguments at the places of field-selection parameters, in order. -/
def selectedArguments (sig : Signature) (args : List NodeId) : List NodeId :=
  (args.zipIdx.filter fun arg => sig.paramType? p.types arg.2 == some roles.fieldSelection).map (·.1)

/-- The elements of the list that is spread over a variadic parameter, if it is there and written out. -/
def spreadElements (sig : Signature) (args : List NodeId) : List NodeId :=
  if sig.fixedCount < args.length then
    match args.getLast?.bind p.node? with
    | some (.composite elts) => elts
    | _ => []
  else []

variable {roles p} {call callee : NodeId} {args : List NodeId} {spread : Bool} {sig : Signature}

/-! ### Fixed parameters and the rest -/

/-- Pairing parameters with arguments selects by place.  The places are counted from `k` on. -/
theorem map_filter_zip (selection : TypeId) (params : List TypeId) (args : List NodeId) (k : Nat)
    (param? : Nat → Option TypeId) (hparam : ∀ i < params.length, param? (k + i) = params[i]?) :
    ((params.zip args).filter (·.1 == selection)).map (·.2) =
      (((args.take params.length).zipIdx k).filter fun arg => param? arg.2 == some selection).map (·.1) := by
  induction params generalizing args k with
  | nil => rw [List.zip_nil_left, List.length_nil, List.take_zero]; rfl
  | cons param params ih =>
    cases args with
    | nil => rfl
    | cons arg args =>
      have hfirst : param? k = some param := hparam 0 (Nat.succ_pos _)
      have hrest : ∀ i < params.length, param? (k + 1 + i) = params[i]? := fun i hi => by
        rw [Nat.add_assoc, Nat.add_comm 1 i]
        exact hparam (i + 1) (Nat.succ_lt_succ hi)
      rw [List.zip_cons_cons, List.length_cons, List.take_succ_cons, List.zipIdx_cons, List.filter_cons,
        List.filter_cons]
      simp only [hfirst, Option.some_beq_some]
      split
      · rw [List.map_cons, List.map_cons, ih args (k + 1) hrest]
      · exact ih args (k + 1) hrest

/-- The arguments for fixed parameters. -/
theorem selectedArguments_take (roles : RoleTable) (p : Program) (sig : Signature) (args : List NodeId) :
    (((sig.params.take sig.fixedCount).zip args).filter (·.1 == roles.fieldSelection)).map (·.2) =
      roles.selectedArguments p sig (args.take sig.fixedCount) := by
  have hlength : (sig.params.take sig.fixedCount).length = sig.fixedCount :=
    List.length_take_of_le sig.fixedCount_le
  have hparam : ∀ i < (sig.params.take sig.fixedCount).length,
      sig.paramType? p.types (0 + i) = (sig.params.take sig.fixedCount)[i]? := fun i hi => by
    rw [hlength] at hi
    rw [Nat.zero_add, Signature.paramType?, if_pos hi, List.getElem?_take_of_lt hi]
  rw [map_filter_zip roles.fieldSelection _ args 0 _ hparam, hlength]
  rfl

/-- Past the fixed parameters all arguments are selected, or none. -/
theorem selectedArguments_append (roles : RoleTable) (p : Program) (sig : Signature) (args : List NodeId) :
    roles.selectedArguments p sig args = roles.selectedArguments p sig (args.take sig.fixedCount) ++
      if sig.variadicElem? p.types == some roles.fieldSelection then args.drop sig.fixedCount else [] := by
  by_cases hlong : sig.fixedCount < args.length
  case neg =>
    have hall : args.length ≤ sig.fixedCount := Nat.le_of_not_lt hlong
    rw [List.take_of_length_le hall, List.drop_of_length_le hall, ite_self, List.append_nil]
  have hlength : (args.take sig.fixedCount).length = sig.fixedCount := List.length_take_of_le (Nat.le_of_lt hlong)
  have hrest : ∀ arg ∈ (args.drop sig.fixedCount).zipIdx sig.fixedCount,
      (sig.paramType? p.types arg.2 == some roles.fieldSelection) =
        (sig.variadicElem? p.types == some roles.fieldSelection) := fun arg harg => by
    rw [Signature.paramType?, if_neg (Nat.not_lt_of_le (List.le_snd_of_mem_zipIdx harg))]
  have hsplit : args.zipIdx = (args.take sig.fixedCount).zipIdx ++
      (args.drop sig.fixedCount).zipIdx sig.fixedCount := by
    conv_lhs => rw [← List.take_append_drop sig.fixedCount args, List.zipIdx_append, hlength, Nat.zero_add]
  rw [selectedArguments, hsplit, List.filter_append, List.map_append, List.filter_congr hrest, selectedArguments]
  congr 1
  split
  · rename_i heq
    rw [heq, List.filter_true, List.zipIdx_map_fst]
  · rename_i hne
    rw [eq_false_of_ne_true hne, List.filter_false, List.map_nil]

/-- What is selected of a call whose callee has a signature. -/
theorem fieldArguments_of_signature (hcall : p.node? call = some (.call callee args spread))
    (hsig : p.calleeSignature? call = some sig) :
    roles.fieldArguments p call = roles.selectedArguments p sig (args.take sig.fixedCount) ++
      if sig.variadicElem? p.types == some roles.fieldSelection then
        trailingArguments p (args.drop sig.fixedCount) spread
      else [] := by
  rw [← selectedArguments_take, Signature.variadicElem?_beq]
  unfold fieldArguments
  rw [hcall, hsig]
  rfl

theorem trailingArguments_of_spread (sig : Signature) (args : List NodeId) :
    trailingArguments p (args.drop sig.fixedCount) true = spreadElements p sig args := by
  unfold trailingArguments spreadElements
  rw [List.getLast?_drop]
  by_cases hlong : sig.fixedCount < args.length
  · rw [if_neg (Nat.not_le_of_lt hlong), if_pos hlong]
    cases hlast : args.getLast? with
    | none => rw [List.getLast?_eq_none_iff.1 hlast, List.drop_nil]; rfl
    | some last => rfl
  · rw [if_pos (Nat.le_of_not_lt hlong), if_neg hlong, List.drop_of_length_le (Nat.le_of_not_lt hlong)]

end RoleTable

/-! ### Reads in range -/

/-- `underlyingWithin` where each read of the table is checked: `none` when there is nothing at an index. -/
def TypeTable.checkedUnderlying? (t : TypeTable) : Nat → TypeId → Option TypeId
  | 0, id => some id
  | depth + 1, id =>
    (t.get? id).bind fun
      | .named { underlying := some next, .. } => t.checkedUnderlying? depth next
      | _ => some id

/-- `signature?` with checked reads; the inner option is the result. -/
def TypeTable.checkedSignature? (t : TypeTable) (id : TypeId) : Option (Option Signature) :=
  (t.checkedUnderlying? maxNameDepth id).bind fun id => (t.get? id).map fun
    | .signature sig => some sig
    | _ => none

/-- `calleeSignature?` with checked reads. -/
def Program.checkedCallee? (p : Program) (callee : NodeId) : Option (Option Signature) :=
  p.nodes[callee]?.bind fun d =>
    match d.type with
    | some type => p.types.checkedSignature? type
    | none => some none

/-- `variadicElem?` with checked reads. -/
def Signature.checkedElem? (types : TypeTable) (sig : Signature) : Option (Option TypeId) :=
  match sig.variadic, sig.params.getLast? with
  | true, some last => (types.get? last).map fun
    | .slice elem => some elem
    | _ => none
  | _, _ => some none

/-- `trailingArguments` with checked reads. -/
def RoleTable.checkedTrailing? (p : Program) (rest : List NodeId) (spread : Bool) : Option (List NodeId) :=
  match spread, rest.getLast? with
  | true, some last => (p.node? last).map fun
    | .composite elts => elts
    | _ => []
  | _, _ => some rest

/-- `fieldArguments` with checked reads. -/
def RoleTable.checkedFieldArguments? (roles : RoleTable) (p : Program) (call : NodeId) : Option (List NodeId) :=
  (p.node? call).bind fun
    | .call callee args spread => (p.checkedCallee? callee).bind fun
      | some sig =>
        let selected := ((sig.params.take sig.fixedCount).zip args).filter (·.1 == roles.fieldSelection)
        (sig.checkedElem? p.types).bind fun elem =>
          if elem == some roles.fieldSelection then
            (checkedTrailing? p (args.drop sig.fixedCount) spread).map (selected.map (·.2) ++ ·)
          else some (selected.map (·.2))
      | none => some []
    | _ => some []

theorem Program.exists_node?_of_lt {p : Program} {n : NodeId} (hn : n < p.nodes.size) : ∃ node, p.node? n = some node :=
  ⟨p.nodes[n].node, by rw [node?, Array.getElem?_eq_getElem hn, Option.map_some]⟩

namespace Program.WellFormed

variable {placed : Bool} {p : Program} (hp : p.WellFormed placed)

include hp

theorem checkedUnderlying?_eq {id : TypeId} (hid : id < p.types.size) (depth : Nat) :
    p.types.checkedUnderlying? depth id = some (p.types.underlyingWithin depth id) := by
  fun_induction TypeTable.underlyingWithin p.types depth id with
  | case1 => rfl
  | case2 id depth name pos next methods hdecl ih =>
    rw [TypeTable.checkedUnderlying?, TypeTable.get?_of_decl? hdecl]
    exact ih (hp.underlying_lt hdecl rfl)
  | case3 id depth hstop =>
    obtain ⟨ty, hty⟩ := TypeTable.exists_get?_of_lt hid
    rw [TypeTable.checkedUnderlying?, hty, Option.bind_some]
    split
    · rename_i name pos next methods
      exact (hstop name pos next methods (by rw [TypeTable.decl?, hty])).elim
    · rfl

theorem checkedSignature?_eq {id : TypeId} (hid : id < p.types.size) :
    p.types.checkedSignature? id = some (p.types.signature? id) := by
  obtain ⟨ty, hty⟩ := TypeTable.exists_get?_of_lt (hp.underlyingWithin_lt hid TypeTable.maxNameDepth)
  rw [TypeTable.checkedSignature?, hp.checkedUnderlying?_eq hid, Option.bind_some, hty, TypeTable.signature?,
    TypeTable.underlying, hty]
  cases ty <;> rfl

theorem checkedCallee?_eq {call callee : NodeId} {args : List NodeId} {spread : Bool}
    (hcall : p.node? call = some (.call callee args spread)) :
    p.checkedCallee? callee = some (p.calleeSignature? call) := by
  obtain ⟨hcallee, -⟩ := hp.call_lt hcall
  have hnode : p.nodes[callee]? = some p.nodes[callee] := Array.getElem?_eq_getElem hcallee
  have htype : p.type? callee = p.nodes[callee].type := by rw [type?, hnode, Option.bind_some]
  simp only [checkedCallee?, calleeSignature?, hcall, hnode, Option.bind_some, ← htype]
  cases hcallee : p.type? callee with
  | none => rfl
  | some type => exact hp.checkedSignature?_eq (hp.type_lt hcallee)

theorem checkedElem?_eq {call : NodeId} {sig : Signature} (hsig : p.calleeSignature? call = some sig) :
    sig.checkedElem? p.types = some (sig.variadicElem? p.types) := by
  unfold Signature.checkedElem? Signature.variadicElem?
  split
  · rename_i last hvariadic hlast
    obtain ⟨ty, hty⟩ := TypeTable.exists_get?_of_lt
      (hp.callee_lt hsig last (List.mem_append_left _ (List.mem_of_getLast? hlast)))
    rw [hvariadic, if_pos rfl, hlast, hty, Option.bind_some, TypeTable.sliceElem?, hty]
    cases ty <;> rfl
  · rename_i hnot
    split
    · rename_i hvariadic
      cases hlast : sig.params.getLast? with
      | none => rfl
      | some last => exact (hnot last hvariadic hlast).elim
    · rfl

theorem checkedTrailing?_eq {call callee : NodeId} {args rest : List NodeId} {spread : Bool}
    (hcall : p.node? call = some (.call callee args spread)) (hrest : rest ⊆ args) :
    RoleTable.checkedTrailing? p rest spread = some (RoleTable.trailingArguments p rest spread) := by
  cases hlast : rest.getLast? with
  | none => cases spread <;> simp [RoleTable.checkedTrailing?, RoleTable.trailingArguments, hlast]
  | some last =>
    have hlt : last < p.nodes.size := (hp.call_lt hcall).2 last (hrest (List.mem_of_getLast? hlast))
    obtain ⟨node, hnode⟩ := exists_node?_of_lt hlt
    simp only [RoleTable.checkedTrailing?, RoleTable.trailingArguments, hlast]
    cases spread with
    | false => rfl
    | true =>
      simp only [hnode, Option.map_some]
      cases node <;> rfl

/-- No read is past the end of a table. -/
theorem checkedFieldArguments?_eq (roles : RoleTable) {call : NodeId} (hcall : call < p.nodes.size) :
    roles.checkedFieldArguments? p call = some (roles.fieldArguments p call) := by
  obtain ⟨node, hnode⟩ := exists_node?_of_lt hcall
  rw [RoleTable.checkedFieldArguments?, hnode, Option.bind_some]
  cases node with
  | call callee args spread =>
    simp only [hp.checkedCallee?_eq hnode, Option.bind_some]
    cases hsig : p.calleeSignature? call with
    | none => simp [RoleTable.fieldArguments, hnode, hsig]
    | some sig =>
      rw [RoleTable.fieldArguments_of_signature hnode hsig, ← RoleTable.selectedArguments_take]
      simp only [hp.checkedElem?_eq hsig, Option.bind_some, hp.checkedTrailing?_eq hnode (List.drop_subset _ args)]
      split
      · rfl
      · rw [List.append_nil]
  | _ => simp [RoleTable.fieldArguments, hnode]

end Program.WellFormed

namespace RoleTable

/-- The arguments of a call that are looked at for field references are those at the places of field-selection
parameters, each once and in order.  Where the last argument is spread, it stands for its elements if it is passed for
a variadic field-selection parameter and written out, and for nothing otherwise.  In a well-formed program no read
that this takes is out of range. -/
theorem fieldArguments_exact (roles : RoleTable) (p : Program) :
    (∀ call callee args spread sig, p.node? call = some (.call callee args spread) →
      p.calleeSignature? call = some sig →
      (spread = false → roles.fieldArguments p call = roles.selectedArguments p sig args) ∧
      (spread = true → sig.variadicElem? p.types = some roles.fieldSelection →
        roles.fieldArguments p call =
          roles.selectedArguments p sig (args.take sig.fixedCount) ++ spreadElements p sig args) ∧
      (spread = true → sig.variadicElem? p.types ≠ some roles.fieldSelection →
        roles.fieldArguments p call = roles.selectedArguments p sig (args.take sig.fixedCount))) ∧
    ∀ placed call, p.WellFormed placed → call < p.nodes.size →
      roles.checkedFieldArguments? p call = some (roles.fieldArguments p call) := by
  refine ⟨fun call callee args spread sig hcall hsig => ?selected,
    fun placed call hp hcall => hp.checkedFieldArguments?_eq roles hcall⟩
  rw [fieldArguments_of_signature hcall hsig]
  refine ⟨?plain, ?spreadSelection, ?spreadOther⟩
  case plain =>
    rintro rfl
    exact (selectedArguments_append roles p sig args).symm
  case spreadSelection =>
    rintro rfl helem
    rw [helem, beq_self_eq_true, if_pos rfl, trailingArguments_of_spread]
  case spreadOther =>
    rintro rfl helem
    rw [beq_false_of_ne helem, if_neg Bool.false_ne_true, List.append_nil]

end RoleTable

/-! ### A variadic call -/

/-- The dump of `pick("a", []Name{"b"}...); pick("c", "d", "e")`, where `pick` takes a string and any number of
names. -/
def PackageDump.picks : PackageDump where
  files := [{
    name := "a"
    decls := [
      .call (.ident { name := "pick", obj := "pick", pos := "1:1" })
        [.literal .string "\"a\"" "1:6", .composite "[]Name" [.literal .string "\"b\"" "1:18"] "1:11"] true none,
      .call (.ident { name := "pick", obj := "pick", pos := "2:1" })
        [.literal .string "\"c\"" "2:6", .literal .string "\"d\"" "2:11", .literal .string "\"e\"" "2:16"]
        false none] }]
  types := [{ name := "Name", underlying := "string" }]
  objects := [{ key := "pick", kind := .func, params := some ["string", "...Name"] }]

def Program.picks : Program := (Program.ofDumps [.picks]).toOption.getD {}

namespace RoleTable

/-- A spread list stands for its elements, and other arguments are selected by place. -/
theorem fieldArguments_exact_picks :
    let roles := { RoleTable.sample with fieldSelection := 0 }
    roles.fieldArguments .picks 4 = [2] ∧ roles.fieldArguments .picks 9 = [7, 8] ∧
    roles.checkedFieldArguments? .picks 4 = some [2] := by
  intro roles
  obtain ⟨hdumps, hspread, hspreadSig, hplain, hplainSig, helem, helements, hselected, hsize⟩ :
      Program.ofDumps [.picks] = .ok .picks ∧
      Program.picks.node? 4 = some (.call 0 [1, 3] true) ∧
      Program.picks.calleeSignature? 4 = some ⟨[1, 2], true, []⟩ ∧
      Program.picks.node? 9 = some (.call 5 [6, 7, 8] false) ∧
      Program.picks.calleeSignature? 9 = some ⟨[1, 2], true, []⟩ ∧
      Signature.variadicElem? Program.picks.types ⟨[1, 2], true, []⟩ = some 0 ∧
      roles.selectedArguments .picks ⟨[1, 2], true, []⟩ [1] ++ spreadElements .picks ⟨[1, 2], true, []⟩ [1, 3] = [2] ∧
      roles.selectedArguments .picks ⟨[1, 2], true, []⟩ [6, 7, 8] = [7, 8] ∧
      4 < Program.picks.nodes.size := by
    decide +kernel
  obtain ⟨hexact, hchecked⟩ := fieldArguments_exact roles .picks
  have hlist := ((hexact 4 0 [1, 3] true _ hspread hspreadSig).2.1 rfl helem).trans helements
  exact ⟨hlist, ((hexact 9 5 [6, 7, 8] false _ hplain hplainSig).1 rfl).trans hselected,
    (hchecked true 4 (Program.wellFormed_of_ofDumps hdumps) hsize).trans (congrArg some hlist)⟩

end RoleTable

end FluentChain
