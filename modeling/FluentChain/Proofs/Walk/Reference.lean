import Mathlib.Data.List.Nodup
import FluentChain.Chain.Walk
import FluentChain.Proofs.Syntax.Forest

/-!
# Where field references stand

Every field reference that a call passes for a field-selection parameter stands in the arguments of that call
and of no other (`Owns.unique`), and it is passed once (`nodup_passed`).
-/

namespace FluentChain.RoleTable

variable (roles : RoleTable) (p : Program)

/-- The field references that are reached from an argument through the elements of maps and the keys of
key/value pairs. -/
inductive Refers : NodeId → NodeId → Prop
  | here {n : NodeId} : (roles.reference? p n).isSome → Refers n n
  | element {n e m : NodeId} {elts : List NodeId} : p.node? n = some (.composite elts) → isMapTyped p n = true →
      e ∈ elts → Refers e m → Refers n m
  | key {n key value m : NodeId} : p.node? n = some (.keyValue key value) → Refers key m → Refers n m

/-- The field references that a call passes for field-selection parameters. -/
def passed (call : NodeId) : List NodeId := (roles.fieldArguments p call).flatMap (roles.references p)

variable {roles p}

theorem reference?_of_composite {n : NodeId} {elts : List NodeId} (h : p.node? n = some (.composite elts)) :
    roles.reference? p n = none := by
  unfold reference?
  rw [h]

theorem reference?_of_keyValue {n key value : NodeId} (h : p.node? n = some (.keyValue key value)) :
    roles.reference? p n = none := by
  unfold reference?
  rw [h]

theorem refers_of_mem_references {n m : NodeId} (h : m ∈ roles.references p n) : roles.Refers p n m := by
  induction n using Nat.strongRecOn with
  | ind n ih =>
    rw [references] at h
    split at h
    · rename_i elts hnode
      split at h
      · rename_i hmap
        obtain ⟨e, he, hm⟩ := List.mem_flatMap.1 h
        split at hm
        · exact .element hnode hmap he (ih e ‹_› hm)
        · cases hm
      · cases h
    · rename_i key value hnode
      split at h
      · exact .key hnode (ih key ‹_› h)
      · cases h
    · split at h
      · rw [List.mem_singleton.1 h]
        exact .here ‹_›
      · cases h

/-- In a program built in order the search for references does not stop early. -/
theorem Refers.mem_references (hp : p.Ordered) {n m : NodeId} (h : roles.Refers p n m) : m ∈ roles.references p n := by
  induction h with
  | @here n href =>
    rw [references]
    split
    · rename_i hnode
      rw [reference?_of_composite hnode] at href
      cases href
    · rename_i hnode
      rw [reference?_of_keyValue hnode] at href
      cases href
    · simp [href]
  | @element n e m elts hnode hmap he _ ih =>
    have hlt : e < n := hp n e (by simp [Program.children_of_node? hnode, Node.children, he])
    rw [references]
    simp only [hnode, hmap, if_true]
    exact List.mem_flatMap.2 ⟨e, he, by rw [if_pos hlt]; exact ih⟩
  | @key n key value m hnode _ ih =>
    have hlt : key < n := hp n key (by simp [Program.children_of_node? hnode, Node.children])
    rw [references]
    simp only [hnode, if_pos hlt]
    exact ih

/-- `references` finds just what can be reached. -/
theorem mem_references_iff (hp : p.Ordered) {n m : NodeId} : m ∈ roles.references p n ↔ roles.Refers p n m :=
  ⟨refers_of_mem_references, fun h => h.mem_references hp⟩

theorem Refers.within {n m : NodeId} (h : roles.Refers p n m) : p.Within n m := by
  induction h with
  | here _ => exact .refl _
  | element hnode _ he _ ih => exact .child (by simp [Program.children_of_node? hnode, Node.children, he]) ih
  | key hnode _ ih => exact .child (by simp [Program.children_of_node? hnode, Node.children]) ih

theorem Refers.isSome_reference? {n m : NodeId} (h : roles.Refers p n m) : (roles.reference? p m).isSome := by
  induction h with
  | here href => exact href
  | element _ _ _ _ ih => exact ih
  | key _ _ ih => exact ih

/-! ### Each once -/

/-- References in nodes that are apart are different. -/
theorem nodup_flatMap_references (hp : p.IsForest) {l : List NodeId} (hl : l.Pairwise p.Apart)
    (hnodup : ∀ n ∈ l, (roles.references p n).Nodup) : (l.flatMap (roles.references p)).Nodup := by
  rw [List.nodup_flatMap]
  refine ⟨hnodup, hl.imp ?_⟩
  intro a b hab m hma hmb
  exact hp.not_within_of_apart hab (refers_of_mem_references hma).within (refers_of_mem_references hmb).within

theorem nodup_references (hp : p.IsForest) (n : NodeId) : (roles.references p n).Nodup := by
  induction n using Nat.strongRecOn with
  | ind n ih =>
    rw [references]
    split
    · rename_i elts hnode
      split
      · have hchildren : p.children n = elts := by simp [Program.children_of_node? hnode, Node.children]
        have hlt : ∀ e ∈ elts, e < n := fun e he => hp.ordered n e (hchildren ▸ he)
        have heq : (elts.flatMap fun e => if e < n then roles.references p e else []) =
            elts.flatMap (roles.references p) :=
          List.flatMap_congr fun e he => if_pos (hlt e he)
        rw [heq]
        refine nodup_flatMap_references hp (hp.pairwise_apart (n := n) ?_) fun e he => ih e (hlt e he)
        rw [hchildren]
      · exact List.nodup_nil
    · rename_i key value hnode
      split
      · exact ih key ‹_›
      · exact List.nodup_nil
    · split
      · exact List.nodup_singleton n
      · exact List.nodup_nil

private theorem map_snd_zip_eq_take {α β : Type} (xs : List α) (ys : List β) :
    (xs.zip ys).map Prod.snd = ys.take xs.length := by
  induction xs generalizing ys with
  | nil => simp
  | cons x xs ih =>
    cases ys with
    | nil => simp
    | cons y ys => simp [ih]

/-- What is passed past the fixed parameters: some of the last arguments, or what the last one lists. -/
theorem trailingArguments_cases (rest : List NodeId) (spread : Bool) :
    trailingArguments p rest spread = rest ∨ trailingArguments p rest spread = [] ∨
      ∃ last ∈ rest, p.node? last = some (.composite (trailingArguments p rest spread)) := by
  unfold trailingArguments
  split
  · rename_i last hlast
    split
    · rename_i elts hnode
      exact Or.inr (Or.inr ⟨last, List.mem_of_getLast? hlast, hnode⟩)
    · exact Or.inr (Or.inl rfl)
  · exact Or.inl rfl

/-- The arguments that are passed for field-selection parameters are some that stand before a place, and then
some that stand after it or that the last one lists. -/
theorem exists_parts_of_fieldArguments {call callee : NodeId} {args : List NodeId} {spread : Bool}
    (hcall : p.node? call = some (.call callee args spread)) :
    ∃ (place : Nat) (fixed trailing : List NodeId), roles.fieldArguments p call = fixed ++ trailing ∧
      fixed.Sublist (args.take place) ∧
      (trailing.Sublist (args.drop place) ∨
        ∃ last ∈ args.drop place, p.node? last = some (.composite trailing)) := by
  unfold fieldArguments
  rw [hcall]
  cases p.calleeSignature? call with
  | none => exact ⟨0, [], [], rfl, List.nil_sublist _, Or.inl (List.nil_sublist _)⟩
  | some sig =>
    refine ⟨if sig.variadic then sig.params.length - 1 else sig.params.length, _, _, rfl, ?_, ?_⟩
    · refine ((List.filter_sublist).map Prod.snd).trans ?_
      rw [map_snd_zip_eq_take]
      exact List.take_sublist_take_left (List.length_take_le _ _)
    · split
      · rcases trailingArguments_cases (p := p) (args.drop _) spread with heq | heq | hlast
        · rw [heq]
          exact Or.inl (List.Sublist.refl _)
        · rw [heq]
          exact Or.inl (List.nil_sublist _)
        · exact Or.inr hlast
      · exact Or.inl (List.nil_sublist _)

theorem fieldArguments_of_not_call {call : NodeId}
    (h : ¬ ∃ callee args spread, p.node? call = some (.call callee args spread)) :
    roles.fieldArguments p call = [] := by
  unfold fieldArguments
  split
  · exact absurd ⟨_, _, _, ‹_›⟩ h
  · rfl

/-- The arguments that are passed for field-selection parameters lie apart. -/
theorem pairwise_apart_fieldArguments (hp : p.IsForest) (call : NodeId) :
    (roles.fieldArguments p call).Pairwise p.Apart := by
  by_cases hcall : ∃ callee args spread, p.node? call = some (.call callee args spread)
  · obtain ⟨callee, args, spread, hcall⟩ := hcall
    obtain ⟨place, fixed, trailing, heq, hfixed, htrailing⟩ := exists_parts_of_fieldArguments hcall
    have hargs : args.Sublist (p.children call) := by simp [Program.children_of_node? hcall, Node.children]
    have hbefore : (args.take place).Sublist (p.children call) := (List.take_sublist place args).trans hargs
    have hafter : (args.drop place).Sublist (p.children call) := (List.drop_sublist place args).trans hargs
    have hacross : ∀ a ∈ args.take place, ∀ b ∈ args.drop place, p.Apart a b := by
      have happend : (args.take place ++ args.drop place).Pairwise p.Apart := by
        rw [List.take_append_drop]
        exact hp.pairwise_apart hargs
      exact fun a ha b hb => (List.pairwise_append.1 happend).2.2 a ha b hb
    -- what is passed for the trailing parameter stands behind the fixed arguments, or within one that does
    rw [heq, List.pairwise_append]
    refine ⟨hp.pairwise_apart (hfixed.trans hbefore), ?_, ?_⟩
    · rcases htrailing with hrest | ⟨last, hlast, hnode⟩
      · exact hp.pairwise_apart (hrest.trans hafter)
      · refine hp.pairwise_apart (n := last) ?_
        simp [Program.children_of_node? hnode, Node.children]
    · intro a ha b hb
      rcases htrailing with hrest | ⟨last, hlast, hnode⟩
      · exact hacross a (hfixed.subset ha) b (hrest.subset hb)
      · refine hp.apart_child (hacross a (hfixed.subset ha) last hlast) ?_
        simp [Program.children_of_node? hnode, Node.children, hb]
  · rw [fieldArguments_of_not_call hcall]
    exact List.Pairwise.nil

/-- A call passes each field reference once. -/
theorem nodup_passed (hp : p.IsForest) (call : NodeId) : (roles.passed p call).Nodup :=
  nodup_flatMap_references hp (pairwise_apart_fieldArguments hp call) fun n _ => nodup_references hp n

/-! ### By one call -/

/-- The call is the nearest one above the node. -/
inductive Owns (p : Program) (call : NodeId) : NodeId → Prop
  | child {c : NodeId} : p.isCall call = true → c ∈ p.children call → Owns p call c
  | inner {n c : NodeId} : p.isCall n = false → Owns p call n → c ∈ p.children n → Owns p call c

theorem Owns.within {call e : NodeId} (h : Owns p call e) : p.Within call e := by
  induction h with
  | child _ hc => exact .child hc (.refl _)
  | inner _ _ hc ih => exact ih.trans (.child hc (.refl _))

/-- A node is owned by one call only. -/
theorem Owns.unique (hp : p.IsForest) {call other e : NodeId} (h : Owns p call e) (h' : Owns p other e) :
    call = other := by
  induction h with
  | child hcall hc =>
    cases h' with
    | child _ hc' => exact hp.parent_unique hc hc'
    | inner hnot _ hc' =>
      rw [hp.parent_unique hc hc', hnot] at hcall
      cases hcall
  | inner hnot _ hc ih =>
    cases h' with
    | child hcall' hc' =>
      rw [hp.parent_unique hc hc', hcall'] at hnot
      cases hnot
    | inner _ howns hc' =>
      rw [← hp.parent_unique hc hc'] at howns
      exact ih howns

theorem Owns.argument {call callee arg : NodeId} {args : List NodeId} {spread : Bool}
    (hcall : p.node? call = some (.call callee args spread)) (h : arg ∈ args) : Owns p call arg := by
  refine .child ?_ ?_
  · simp [Program.isCall, hcall]
  · simp [Program.children_of_node? hcall, Node.children, h]

theorem Owns.element {call n e : NodeId} {elts : List NodeId} (hn : Owns p call n)
    (hnode : p.node? n = some (.composite elts)) (h : e ∈ elts) : Owns p call e := by
  refine .inner ?_ hn ?_
  · simp [Program.isCall, hnode]
  · simp [Program.children_of_node? hnode, Node.children, h]

theorem Owns.key {call n key value : NodeId} (hn : Owns p call n)
    (hnode : p.node? n = some (.keyValue key value)) : Owns p call key := by
  refine .inner ?_ hn ?_
  · simp [Program.isCall, hnode]
  · simp [Program.children_of_node? hnode, Node.children]

theorem Refers.owns {call n m : NodeId} (h : roles.Refers p n m) (hn : Owns p call n) : Owns p call m := by
  induction h with
  | here _ => exact hn
  | element hnode _ he _ ih => exact ih (hn.element hnode he)
  | key hnode _ ih => exact ih (hn.key hnode)

theorem owns_of_mem_fieldArguments {call arg : NodeId} (h : arg ∈ roles.fieldArguments p call) :
    Owns p call arg := by
  by_cases hcall : ∃ callee args spread, p.node? call = some (.call callee args spread)
  · obtain ⟨callee, args, spread, hcall⟩ := hcall
    obtain ⟨place, fixed, trailing, heq, hfixed, htrailing⟩ := exists_parts_of_fieldArguments hcall
    rw [heq] at h
    rcases List.mem_append.1 h with h | h
    · exact .argument hcall (List.mem_of_mem_take (hfixed.subset h))
    · rcases htrailing with hrest | ⟨last, hlast, hnode⟩
      · exact .argument hcall (List.mem_of_mem_drop (hrest.subset h))
      · exact (Owns.argument hcall (List.mem_of_mem_drop hlast)).element hnode h
  · rw [fieldArguments_of_not_call hcall] at h
    cases h

theorem mem_passed_iff (hp : p.Ordered) {call e : NodeId} :
    e ∈ roles.passed p call ↔ ∃ arg ∈ roles.fieldArguments p call, roles.Refers p arg e := by
  simp only [passed, List.mem_flatMap, mem_references_iff hp]

theorem owns_of_mem_passed (hp : p.Ordered) {call e : NodeId} (h : e ∈ roles.passed p call) : Owns p call e := by
  obtain ⟨arg, harg, hrefers⟩ := (mem_passed_iff hp).1 h
  exact hrefers.owns (owns_of_mem_fieldArguments harg)

end FluentChain.RoleTable
