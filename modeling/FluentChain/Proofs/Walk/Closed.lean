import FluentChain.Proofs.Build.Dumped
import FluentChain.Proofs.Walk.Chain
import FluentChain.Proofs.Walk.Growth
import FluentChain.Proofs.Walk.Placed

/-!
# Walks over programs made from dumps

A program that dumps describe is a forest of which no node is left over, and every number in it is in range
(`closed_of_ofDumps`).  So nothing behind its end is looked at when roles are found, chains are walked and reports are
written, and the recursions of a walk come to their end without being told to stay below the node they start from.
-/

namespace FluentChain

variable {p q : Program} {roles : RoleTable}

/-! ### Recursions -/

/-- The recursions of a walk go on to the nodes that syntax names, whatever their numbers. -/
structure Walk.Unguarded (p : Program) (roles : RoleTable) : Prop where
  visit : ∀ n env, visit p roles n env = do
    let inner ← enter p roles n env
    let after ← (p.children n).foldlM (fun env c => visit p roles c env) inner
    return if isBlock p n then env else after
  resolveCall : ∀ env {call recv sel args}, p.methodCall? call = some (recv, sel, args) →
    resolveCall p roles env call = do
      match (← get).memo.lookup call with
      | some ctx => return ctx
      | none =>
        let receiver ← if p.isCall recv then resolveCall p roles env recv else pure (env.contextOf p recv)
        settle p roles call sel args receiver
  references : ∀ n, roles.references p n =
    match p.node? n with
    | some (.composite elts) => if RoleTable.isMapTyped p n then elts.flatMap (roles.references p) else []
    | some (.keyValue key _) => roles.references p key
    | _ => if (roles.reference? p n).isSome then [n] else []

theorem RoleTable.references_eq (hp : p.Ordered) (n : NodeId) :
    roles.references p n =
      match p.node? n with
      | some (.composite elts) => if isMapTyped p n then elts.flatMap (roles.references p) else []
      | some (.keyValue key _) => roles.references p key
      | _ => if (roles.reference? p n).isSome then [n] else [] := by
  have hbelow : ∀ {node c}, p.node? n = some node → c ∈ node.children → c < n := by
    intro node c hnode hc
    exact hp n c (by rwa [Program.children_of_node? hnode])
  rw [references]
  cases hnode : p.node? n with
  | none => rfl
  | some node =>
    cases node with
    | composite elts =>
      have hlt : ∀ e ∈ elts, e < n := fun e he => hbelow hnode he
      dsimp only
      rw [List.flatMap_congr fun e he => if_pos (hlt e he)]
    | keyValue key value => exact if_pos (hbelow hnode (List.mem_cons_self ..))
    | _ => rfl

theorem Walk.resolveCall_eq (hp : p.Ordered) (env : Environment) {call recv sel : NodeId} {args : List NodeId}
    (h : p.methodCall? call = some (recv, sel, args)) :
    Walk.resolveCall p roles env call = (do
      match (← get).memo.lookup call with
      | some ctx => return ctx
      | none =>
        let receiver ← if p.isCall recv then Walk.resolveCall p roles env recv else pure (env.contextOf p recv)
        settle p roles call sel args receiver) := by
  funext s
  rw [get_bind]
  cases hmemo : s.memo.lookup call with
  | some ctx =>
    rw [resolveCall_known env h hmemo]
    rfl
  | none =>
    rw [resolveCall_new env h hmemo]
    unfold receiverContext
    rw [if_pos (recv_lt_of_methodCall? hp h)]
    split <;> rfl

theorem Program.Ordered.unguarded (hp : p.Ordered) (roles : RoleTable) : Walk.Unguarded p roles where
  visit := Walk.visit_eq hp
  resolveCall env _ _ _ _ h := Walk.resolveCall_eq hp env h
  references := RoleTable.references_eq hp

/-! ### Reports -/

namespace Program.PaddedTo

variable (h : p.PaddedTo q)

include h

theorem displayPos {pos : Pos} (hpos : pos.InRange (p.bounds true)) : q.displayPos pos = p.displayPos pos := by
  unfold Program.displayPos Program.fileName
  rw [getElem?_of_isPrefix h.files (hpos p.files.size rfl)]

theorem message {d : Diagnostic} (hd : d.InRange (p.bounds true)) : d.message q = d.message p := by
  have hreference : d.reference.map q.displayPos = d.reference.map p.displayPos :=
    Option.map_congr fun pos hpos => h.displayPos (hd.reference pos hpos)
  unfold Diagnostic.message
  rw [h.displayPos hd.pos, hreference]

theorem errorMessage {e : CheckError} (he : e.pos.InRange (p.bounds true)) : e.message q = e.message p := by
  cases e with
  | badEntry pos flaw => exact congrArg (· ++ _ ++ _ ++ _) (h.displayPos he)
  | undecodableLiteral pos raw => exact congrArg (· ++ _ ++ _) (h.displayPos he)

theorem report (hp : p.WellFormed true) {ds : Diagnostics} (hds : ds.InRange (p.bounds true)) (verbose : Bool) :
    ds.report q verbose = ds.report p verbose := by
  have hsorted : ds.sorted q = ds.sorted p := by
    have hmap := List.map_mergeSort (r := Diagnostics.precedes p) (s := Diagnostics.precedes q) (f := id)
      (l := ds.checked) fun a ha b hb => by
        unfold Diagnostics.precedes
        rw [id, id, h.pos (hds.checked a ha), h.pos (hds.checked b hb)]
    simpa [Diagnostics.sorted] using hmap.symm
  unfold Diagnostics.report
  rw [hsorted]
  congr 1
  refine List.map_congr_left fun n hn => ?_
  have hlt := hds.checked n ((List.mergeSort_perm _ _).mem_iff.1 hn)
  rw [h.pos hlt, h.displayPos (hp.pos_inRange hlt)]
  congr 1
  exact List.map_congr_left fun d hd => h.message (hds.foundAt n d hd)

end Program.PaddedTo

/-! ### Whole programs -/

namespace Program

/-- A program that dumps describe is a forest, in which each node lies in one declaration and has one way up to it.
What is selected is named by an identifier, and all numbers are in range.  The recursions of a walk follow its syntax
as it is, and nothing that may stand behind its end is looked at: roles, walks and reports are the same on all
paddings. -/
theorem closed_of_ofDumps {ds : List PackageDump} (h : Program.ofDumps ds = .ok p) :
    p.IsForest ∧
    (∀ n < p.nodes.size, (∃! d, d ∈ p.decls ∧ p.Within d n) ∧ ∃! above, p.Ancestry n above) ∧
    (∀ n x sel, p.node? n = some (.selector x sel) → p.IsIdent sel) ∧
    p.WellFormed true ∧
    (∀ roles, Walk.Unguarded p roles) ∧
    ∀ q, p.PaddedTo q →
      (∀ manifest, RoleTable.discover q manifest = RoleTable.discover p manifest) ∧
      ∀ roles, Walk.program q roles {} = Walk.program p roles {} ∧
        ∀ verbose, ((q.diagnose roles).map (Diagnostics.report · q verbose)).mapError (CheckError.message q) =
          ((p.diagnose roles).map (Diagnostics.report · p verbose)).mapError (CheckError.message p) := by
  have hforest := isForest_of_ofDumps h
  have hcomplete := complete_of_ofDumps h
  have hrange := wellFormed_of_ofDumps h
  refine ⟨hforest, ?_, fun _ _ _ hn => (grove_of_ofDumps h).selected hn, hrange, hforest.ordered.unguarded, ?_⟩
  · exact fun n hn => ⟨hforest.existsUnique_decl hcomplete hn, hforest.existsUnique_ancestry hcomplete hn⟩
  · intro q hq
    refine ⟨hq.discover hrange, fun roles => ⟨hq.walk hrange, fun verbose => ?_⟩⟩
    have hdiagnose : q.diagnose roles = p.diagnose roles := by
      unfold Program.diagnose
      rw [hq.walk hrange]
    have hends := hrange.ends_diagnose roles
    rw [hdiagnose]
    cases hresult : p.diagnose roles with
    | ok found =>
      rw [hresult] at hends
      exact congrArg Except.ok (hq.report hrange hends verbose)
    | error e =>
      rw [hresult] at hends
      exact congrArg Except.error (hq.errorMessage hends)

/-- More nodes behind the end are a padding. -/
theorem paddedTo_pushNode (p : Program) (d : NodeData) : p.PaddedTo { p with nodes := p.nodes.push d } where
  files := List.prefix_refl _
  nodes := by simp
  types := List.prefix_refl _
  objects := List.prefix_refl _
  decls := rfl
  named? _ := rfl
  pointerTo? _ _ := rfl
  lookupObject? _ := rfl

theorem closed_of_ofDumps_sample :
    Program.ofDumps [.sample] = .ok .sample ∧ Program.sample.IsForest ∧ Program.sample.WellFormed true ∧
      (∃! above, Program.sample.Ancestry 0 above) ∧
      ∀ d, Walk.program { Program.sample with nodes := Program.sample.nodes.push d } .sample {} =
        .ok {} .sample := by
  obtain ⟨hforest, hways, -, hrange, -, hpadded⟩ := closed_of_ofDumps Program.ofDumps_sample
  refine ⟨Program.ofDumps_sample, hforest, hrange, (hways 0 (by decide)).2, fun d => ?_⟩
  obtain ⟨hwalk, -⟩ := (hpadded _ (paddedTo_pushNode Program.sample d)).2 .sample
  exact hwalk.trans Walk.program_sample

end Program

end FluentChain
